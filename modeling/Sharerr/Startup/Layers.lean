import Sharerr.Config.Edits
import Sharerr.Figment.Value
import Sharerr.Rust.Text

/-!
# How the configuration is loaded

The layers are the defaults, the document, the `SHARERR_*_FILE` variables and
the `SHARERR_*` variables, each laid over the ones before.  Where they cannot be
read as a configuration, two fields are salvaged.

What belongs to other crates is left open: the parsers, and the reading of the
merged layers as a whole.
-/

namespace Sharerr

open Config (Document Item splitDots)

namespace Startup

open Rust (IndexMap)

structure Config (Addr Rest : Type) where
  dataDir : String
  /-- `server.bind`. -/
  bind : Addr
  rest : Rest
deriving DecidableEq, Repr

/-- What is not the program's own. -/
structure Parsers (Addr Rest : Type) where
  /-- `str::to_uppercase` and `str::to_lowercase`. -/
  toUppercase : String → String
  toLowercase : String → String
  /-- `figment::value::Value::from_str`, which never fails. -/
  parseValue : String → Figment.Value
  /-- What `figment` says of a value that should have been a map. -/
  notMap : Figment.Value → String
  parseToml : String → Except String Document
  /-- `SocketAddr::from_str`. -/
  parseAddr : String → Option Addr
  /-- The reading of merged layers as a configuration. -/
  extract : Figment.Value → Except String (Config Addr Rest)

/-- What the process finds: its environment, in the order it is listed in, and
the files it can read. -/
structure Host where
  vars : List (String × String)
  readFile : String → Except String String
  isFile : String → Bool

/-- `std::env::var`. -/
def Host.var (host : Host) (name : String) : Option String :=
  IndexMap.get host.vars name

/-- `Config::default`, with what it serializes as. -/
structure Defaults {Addr Rest : Type} (parsers : Parsers Addr Rest) where
  config : Config Addr Rest
  value : Figment.Value
  dataDir : value.look ["data_dir"] = .found (.string config.dataDir)
  bind : ∃ text, value.look ["server", "bind"] = .found (.string text) ∧
    parsers.parseAddr text = some config.bind

def dataDirPath : String := "data_dir"

def serverBindPath : String := "server.bind"

/-- `config_paths::env_var`. -/
def envVar (path : String) : String :=
  "SHARERR_" ++ String.ofList (path.toList.flatMap fun character =>
    if character = '.' then ['_', '_'] else [character.toUpper])

/-- The key `toml` gives a date in place of its parts. -/
def datetimeKey : String := "$__toml_private_datetime"

mutual

def readValue : Config.Value → Figment.Value
  | .string text => .string text
  | .datetime text => .dict [(datetimeKey, .string text)]
  | .inlineTable entries => .dict (readValues entries)
  | .integer _ => .other
  | .float _ => .other
  | .boolean _ => .other
  | .array _ => .other

def readValues : List (String × Config.Value) →
    List (String × Figment.Value)
  | [] => []
  | (key, value) :: rest => (key, readValue value) :: readValues rest

end

mutual

def readItem : Item → Figment.Value
  | .value value => readValue value
  | .table entries => .dict (readItems entries)
  | .arrayOfTables _ => .other

def readItems : List (String × Item) → List (String × Figment.Value)
  | [] => []
  | (key, item) :: rest => (key, readItem item) :: readItems rest

end

/-- `Item::as_str`. -/
def asStr : Item → Option String
  | .value (.string text) => some text
  | _ => none

/-- The walk of `doc_str` from an item on. -/
def walk : Item → List String → Option Item
  | item, [] => some item
  | item, segment :: segments =>
    (item.entry segment).bind fun inner => walk inner segments

def docStr (doc : Document) (path : String) : Option String :=
  (walk (.table doc) (splitDots path.toList [])).bind asStr

section Loading

variable {Addr Rest : Type} (parsers : Parsers Addr Rest)

/-- `Toml::file`: a file that is not there is an empty document. -/
def tomlFile (host : Host) (path : String) : Except String Figment.Value :=
  if host.isFile path then do
    let doc ← parsers.parseToml (← host.readFile path)
    return readItem (.table doc)
  else return .dict []

def nonConfigEnv : List String :=
  ["CONFIG", "MASTER_KEY", "MASTER_KEY_FILE", "E2E_MEDIA", "VERSION",
    "LOG_FORMAT", "E2E_COMPOSE", "E2E_LIDARR", "E2E_MESH_KEY"]

structure FileOverride where
  /-- The dotted config path. -/
  path : String
  name : String
  file : String
deriving DecidableEq, Repr

def fileOverride (name file : String) : Option FileOverride := do
  let rest ← Rust.stripPrefix "SHARERR_" (parsers.toUppercase name)
  if nonConfigEnv.contains rest then none
  else
    let path ← Rust.stripSuffix "_FILE" rest
    if path = "" then none
    else
      let dotted := Rust.replacePair '_' '_' ['.']
        (parsers.toLowercase path).toList
      some ⟨String.ofList dotted, name, file⟩

def fileOverrides (vars : List (String × String)) : List FileOverride :=
  vars.filterMap fun (name, file) => fileOverride parsers name file

/-- One entry of `FileEnv` laid over the ones before. -/
def mergeFile (host : Host) (merged : Figment.Value) (entry : FileOverride) :
    Except String Figment.Value := do
  let raw ← (host.readFile entry.file).mapError fun reason =>
    s!"{entry.name}: could not read {entry.file}: {reason}"
  let value := Figment.nest (splitDots entry.path.toList [])
    (parsers.parseValue (Rust.trim raw))
  match value with
  | .dict _ => return merged.merge value
  | _ => throw (parsers.notMap value)

/-- `FileEnv::data`. -/
def fileEnv (host : Host) : Except String Figment.Value :=
  (fileOverrides parsers host.vars).foldlM (mergeFile parsers host) (.dict [])

/-- The keys `Env` reads a variable's name as: prefixed, not ignored, not a
`_FILE` form, split at double underscores and in lower case. -/
def envKeys (name : String) : Option (List String) :=
  let front := String.ofList (name.toList.take "SHARERR_".length)
  let rest := String.ofList (name.toList.drop "SHARERR_".length)
  if ¬ Rust.eqIgnoreAsciiCase front "SHARERR_" then none
  else if nonConfigEnv.any (Rust.eqIgnoreAsciiCase · rest) then none
  else if "_FILE".toList.isSuffixOf (parsers.toUppercase rest).toList then none
  else
    let dotted := String.ofList (Rust.replacePair '_' '_' ['.'] rest.toList)
    let keys := splitDots (Rust.toAsciiLowercase dotted).toList []
    if keys.contains "" then none else some keys

/-- One variable laid over the ones before. -/
def mergeVar (merged : Figment.Value) : String × String → Figment.Value
  | (name, text) =>
    match envKeys parsers name with
    | none => merged
    | some keys =>
      merged.merge (Figment.nest keys (parsers.parseValue text))

/-- `Env::data`. -/
def env (vars : List (String × String)) : Figment.Value :=
  vars.foldl (mergeVar parsers) (.dict [])

/-- What the document gives a configuration of its own. -/
def salvageDocument (config : Config Addr Rest) (doc : Document) :
    Config Addr Rest :=
  let config := match docStr doc dataDirPath with
    | some dir => { config with dataDir := dir }
    | none => config
  match (docStr doc serverBindPath).bind parsers.parseAddr with
  | some addr => { config with bind := addr }
  | none => config

/-- What the environment gives a configuration of its own. -/
def salvageEnv (config : Config Addr Rest) (host : Host) :
    Config Addr Rest :=
  let config := match host.var (envVar dataDirPath) with
    | some dir => { config with dataDir := dir }
    | none => config
  match (host.var (envVar serverBindPath)).bind parsers.parseAddr with
  | some addr => { config with bind := addr }
  | none => config

variable {parsers} (defaults : Defaults parsers)

def layered (host : Host) (document : Except String Figment.Value) :
    Except String Figment.Value := do
  let document ← document
  let files ← fileEnv parsers host
  return ((defaults.value.merge document).merge files).merge
    (env parsers host.vars)

def load (host : Host) (path : String) : Except String (Config Addr Rest) :=
  ((layered defaults host (tomlFile parsers host path)).bind
    parsers.extract).mapError fun reason =>
      s!"failed to load configuration (file: {path}, env: SHARERR_*): " ++
        reason

def loadOrRecover (host : Host) (path : String) :
    Config Addr Rest × Option String :=
  match load defaults host path with
  | .ok config => (config, none)
  | .error reason =>
    let config :=
      match (host.readFile path).bind parsers.parseToml with
      | .ok doc => salvageDocument parsers defaults.config doc
      | .error _ => defaults.config
    (salvageEnv parsers config host, some reason)

end Loading

end Startup

end Sharerr
