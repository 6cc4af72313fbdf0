import Sharerr.Gossip.Calls
import Sharerr.Process.Pool
import Sharerr.Tracker.Admission
import Sharerr.Vault.Seeds

/-!
# What the settings pages act on

A save writes to `sharerr.toml`, to the vault, and to what the process holds
of the two.  `config_write` is one lock around the file; the vault has its own,
taken inside each of its calls.  A request opens one vault handle of its own.

What `toml_edit`, figment and the environment make of a text is left open.
-/

namespace Sharerr

namespace Settings

open Process (Prog)

/-- One `[[peers]]` entry. -/
structure PeerImport where
  label : String
  scope : String
  maxSizeBytes : Option Int
  maxHeight : Option Int
  lastAddr : Option String
  gossipUrl : Option String
  gossipKey : Option String
deriving DecidableEq, Repr

structure Config (Rest : Type) where
  rest : Rest
  peers : List PeerImport
deriving DecidableEq, Repr

/-- What `Config::take_peers` leaves behind. -/
def Config.withoutPeers {Rest : Type} (config : Config Rest) : Config Rest :=
  { config with peers := [] }

@[simp] theorem Config.withoutPeers_withoutPeers {Rest : Type}
    (config : Config Rest) :
    config.withoutPeers.withoutPeers = config.withoutPeers :=
  rfl

/-- The documents of `sharerr.toml` and what they mean. -/
structure Documents (Doc Rest : Type) where
  parse : String → Except String Doc
  /-- `ConfigFile::to_toml`. -/
  print : Doc → String
  /-- `replacement_for`: a blank document with the data directory and the
  bind address of a configuration. -/
  replacement : Config Rest → Doc
  clearPeers : Doc → Doc
  /-- `settings::validate`. -/
  validate : String → Except String (Config Rest)

/-- How writing `sharerr.toml` failed: a file that was to be replaced may have
been moved aside before. -/
structure WriteFailure where
  message : String
  movedAside : Bool
deriving DecidableEq, Repr

structure World (Cipher Rest : Type) where
  vault : Vault.World Cipher
  /-- Who holds `config_write`. -/
  holder : Option Nat
  /-- `sharerr.toml`. -/
  text : Option String
  config : Config Rest
  configError : Option String
  /-- The tokens cached out of the vault, and the uses of the previous one. -/
  server : Tracker.ServeState

/-- A call on the vault handle of the request. -/
inductive VaultCall where
  | open
  | get (key : String)
  | mutate (mutation : Vault.Mutation)
deriving DecidableEq

def VaultCall.op (thread : Nat) (master : String) (host : Vault.Host) :
    VaultCall → Vault.Op
  | .open => .open thread master host
  | .get key => .get thread key
  | .mutate mutation => .mutate thread host mutation

/-- One step of a handler that another may come between. -/
inductive Call (Rest : Type) where
  | lockConfigWrite
  | unlockConfigWrite
  | readConfigError
  | readConfig
  | readFile
  | writeFile (recovered : Bool) (text : String)
  | writeConfig (config : Config Rest)
  | clearConfigError
  /-- `ServeState::invalidate`. -/
  | invalidate (reason : String)
  | resetLegacyTokenStatus
  | randomHex
  | vault (wanted : VaultCall)
  | openStore
  | createPeer (label key scope : String)
  | setPeerLimits (id : Nat) (maxSizeBytes maxHeight : Option Int)
  | setPeerGossipUrl (id : Nat) (url : String)
  | recordPeerEndpoint (id : Nat) (address : String)
deriving DecidableEq

/-- What a call returns.  A vault call comes with what its host gave it. -/
@[reducible] def Answer {Rest : Type} : Call Rest → Type
  | .readConfigError => Option String
  | .readConfig => Config Rest
  | .readFile => Except String String
  | .writeFile _ _ => Except WriteFailure Unit
  | .randomHex => Except String String
  | .vault _ => Vault.Host × Except VaultError Vault.Answer
  | .openStore => Except String Unit
  | .createPeer _ _ _ => Except String Nat
  | .setPeerLimits _ _ _ => Except String Unit
  | .setPeerGossipUrl _ _ => Except String Unit
  | .recordPeerEndpoint _ _ => Except String Unit
  | _ => Unit

abbrev Program (Rest : Type) := Prog (Call Rest) Answer

abbrev Event (Rest : Type) := Process.Event Nat (Call Rest) Answer

abbrev Moment (Cipher Rest : Type) :=
  Process.Moment Nat (World Cipher Rest) (Call Rest) Answer

section Perform

variable {Cipher Rest : Type} [DecidableEq Rest]
variable (sealing : Sealing Cipher) (master : String)

/-- What a call does.  The peers a store keeps are left out. -/
def perform : Process.Perform Nat (World Cipher Rest) (Call Rest) Answer :=
  fun thread world request answer =>
    match request, answer with
    | .lockConfigWrite, _ =>
      if world.holder = none then some { world with holder := some thread }
      else none
    | .unlockConfigWrite, _ =>
      if world.holder = some thread then some { world with holder := none }
      else none
    | .readConfigError, reason =>
      if reason = world.configError then some world else none
    | .readConfig, config =>
      if config = world.config then some world else none
    | .readFile, .ok text =>
      if text = world.text.getD "" then some world else none
    | .writeFile _ text, .ok _ => some { world with text := some text }
    | .writeFile recovered _, .error failure =>
      if failure.movedAside then
        if recovered then some { world with text := none } else none
      else some world
    | .writeConfig config, _ => some { world with config }
    | .clearConfigError, _ => some { world with configError := none }
    | .invalidate _, _ =>
      some { world with
        server := { world.server with trackerTokens := none } }
    | .resetLegacyTokenStatus, _ =>
      some { world with
        server := { world.server with legacyTokenUses := 0 } }
    | .vault wanted, (host, answer) =>
      let (vault, returned) :=
        world.vault.step sealing (wanted.op thread master host)
      if returned = some answer then some { world with vault } else none
    | _, _ => some world

end Perform

/-- The text up to its `[[peers]]` block. -/
def beforeBlock (text : String) : String :=
  String.ofList (text.toList.takeWhile (· ≠ '['))

def samEntry : PeerImport :=
  ⟨"Sam", "all", none, none, none, none, none⟩

/-- Documents that are their own text, in which every table is a `[[peers]]`
entry for Sam. -/
def plainDocuments : Documents String String where
  parse := .ok
  print := id
  replacement config := config.rest
  clearPeers := beforeBlock
  validate text := .ok ⟨beforeBlock text,
    if '[' ∈ text.toList then [samEntry] else []⟩

end Settings

end Sharerr
