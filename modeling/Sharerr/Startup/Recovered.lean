import Sharerr.Startup.Layers

/-!
# The configuration a rescue starts with

Two fields are salvaged where the layers do not make a configuration.  They are
what the layers say of them exactly when the variables that speak of them do so
in the one spelling, and in the plain text, that the salvage reads.
-/

namespace Sharerr

open Config (Document Item splitDots)

namespace Startup

open Figment (Look)
open Rust (IndexMap)

section Entries

variable {α : Type} {read : α → Figment.Value}
variable {readAll : List (String × α) → List (String × Figment.Value)}

theorem get_of_readAll (nil : readAll [] = [])
    (cons : ∀ entry rest,
      readAll (entry :: rest) = (entry.1, read entry.2) :: readAll rest)
    (entries : List (String × α)) (key : String) :
    IndexMap.get (readAll entries) key =
      (IndexMap.get entries key).map read := by
  induction entries with
  | nil => rw [nil]; rfl
  | cons entry rest ih =>
    rw [cons, IndexMap.get_cons, IndexMap.get_cons, ih]
    by_cases same : entry.1 = key
    · rw [if_pos same, if_pos same, Option.map_some]
    · rw [if_neg same, if_neg same]

end Entries

theorem get_readItems (entries : List (String × Item)) (key : String) :
    IndexMap.get (readItems entries) key =
      (IndexMap.get entries key).map readItem :=
  get_of_readAll readItems.eq_1 (fun _ _ => readItems.eq_2 ..) entries key

theorem get_readValues (entries : List (String × Config.Value))
    (key : String) :
    IndexMap.get (readValues entries) key =
      (IndexMap.get entries key).map readValue :=
  get_of_readAll readValues.eq_1 (fun _ _ => readValues.eq_2 ..) entries key

theorem asStr_readItem (item : Item) :
    (readItem item).asStr = asStr item := by
  cases item with
  | table | arrayOfTables => rfl
  | value value => cases value <;> rfl

theorem look_readItem_cons {item : Item} {key : String}
    (plain : key ≠ datetimeKey) (keys : List String) :
    (∃ inner, item.entry key = some inner ∧
        (readItem item).look (key :: keys) =
          ((readItem inner).look keys).below) ∨
      item.entry key = none ∧
        ∀ value, (readItem item).look (key :: keys) ≠ .found value := by
  have dictionary (entries : List (String × Figment.Value))
      (found : Option Item)
      (same : IndexMap.get entries key = found.map readItem) :
      (∃ inner, found = some inner ∧
          (Figment.Value.dict entries).look (key :: keys) =
            ((readItem inner).look keys).below) ∨
        found = none ∧ ∀ value,
          (Figment.Value.dict entries).look (key :: keys) ≠
            .found value := by
    cases found with
    | none =>
      right
      refine ⟨rfl, fun value => ?_⟩
      rw [Figment.look_cons, same]
      nofun
    | some inner =>
      left
      refine ⟨inner, rfl, ?_⟩
      rw [Figment.look_cons, same]
      rfl
  cases item with
  | table entries => exact dictionary _ _ (get_readItems entries key)
  | arrayOfTables tables => exact .inr ⟨rfl, nofun⟩
  | value value =>
    cases value with
    | inlineTable entries =>
      refine dictionary (readValues entries) _ ?_
      rw [get_readValues, Item.entry, Option.map_map]
      rfl
    | datetime text =>
      refine dictionary [(datetimeKey, .string text)] none ?_
      rw [IndexMap.get_cons, if_neg (Ne.symm plain)]
      rfl
    | string | integer | float | boolean | array =>
      exact .inr ⟨rfl, nofun⟩

theorem look_readItem {keys : List String} (plain : datetimeKey ∉ keys)
    (item : Item) :
    (∃ inner, walk item keys = some inner ∧
        (readItem item).look keys = .found (readItem inner)) ∨
      walk item keys = none ∧
        ∀ value, (readItem item).look keys ≠ .found value := by
  induction keys generalizing item with
  | nil => exact .inl ⟨item, rfl, rfl⟩
  | cons key keys ih =>
    rw [List.mem_cons, not_or] at plain
    rcases look_readItem_cons (Ne.symm plain.1) keys with
      ⟨inner, entry, look⟩ | ⟨entry, look⟩
    · rw [walk, entry, look, Option.bind_some]
      rcases ih plain.2 inner with ⟨last, walked, found⟩ | ⟨walked, lost⟩
      · exact .inl ⟨last, walked, by rw [found]; rfl⟩
      · refine .inr ⟨walked, fun value => ?_⟩
        cases seen : (readItem inner).look keys with
        | missing | blocked => nofun
        | found last => exact absurd seen (lost last)
    · exact .inr ⟨by rw [walk, entry]; rfl, look⟩

/-- A field of the configuration: where it is, and what makes a value of a
text. -/
structure Field (A : Type) where
  path : String
  read : String → Option A

def dataDirField : Field String := ⟨dataDirPath, some⟩

def bindField {Addr Rest : Type} (parsers : Parsers Addr Rest) : Field Addr :=
  ⟨serverBindPath, parsers.parseAddr⟩

namespace Field

variable {A : Type} (field : Field A) (default : A)

def keys : List String := splitDots field.path.toList []

/-- The value of a text in its place. -/
def reads (value : Figment.Value) : Option A :=
  value.asStr.bind field.read

/-- The value of a field in the merged layers, when it is well-formed.  A field
that is not there has its default. -/
def layered : Look → Option A
  | .found value => field.reads value
  | .missing _ => some default
  | .blocked _ => none

/-- What the capital variable says as it stands. -/
def own (host : Host) : Option A :=
  (host.var (envVar field.path)).bind field.read

/-- What is read in place of the variable. -/
def instead (doc : Document) : A :=
  ((docStr doc field.path).bind field.read).getD default

/-- What a document says, with dictionaries of some depth laid over it. -/
def under (depth : Nat) : Look → Option A
  | .found value => field.reads value
  | .missing _ => some default
  | .blocked level => if level ≤ depth then some default else none

/-- The conditions under which a field is salvaged as the layers have it, by
what the document, the files and the variables say at its place. -/
structure Heeded (host : Host) (doc : Document) (files vars : Look) :
    Prop where
  /-- A value the variables give the field is that of the variable in capitals
  as it stands, or of what is read where that one says nothing. -/
  spelled : ∀ value a, vars = .found value → field.reads value = some a →
    field.own host = some a ∨
      field.own host = none ∧ field.instead default doc = a
  /-- So is a value that comes from a file. -/
  filed : ∀ depth value a, vars = .missing depth → files = .found value →
    field.reads value = some a →
      field.own host = some a ∨
        field.own host = none ∧ field.instead default doc = a
  /-- A file put something else in the place of the table and a variable a
  table again, which leaves the default: that is what is read. -/
  cleared : ∀ depth level, vars = .missing depth → files = .blocked level →
    level ≤ depth →
      field.own host = some default ∨
        field.own host = none ∧ field.instead default doc = default
  /-- Where the variables say nothing in the end, the one in capitals says
  nothing either, or what the document says. -/
  covered : ∀ depth level a mine, vars = .missing depth →
    files = .missing level →
      field.under default (max depth level)
        ((readItem (.table doc)).look field.keys) = some a →
          field.own host = some mine → mine = a

variable {field default} {host : Host} {doc : Document}

theorem getD_own_iff {other a : A} :
    (field.own host).getD other = a ↔
      field.own host = some a ∨ field.own host = none ∧ other = a := by
  cases field.own host <;> simp

theorem instead_of_under (plain : datetimeKey ∉ field.keys) {depth : Nat}
    {a : A} (said : field.under default depth
      ((readItem (.table doc)).look field.keys) = some a) :
    field.instead default doc = a := by
  rcases look_readItem plain (.table doc) with
    ⟨inner, walked, found⟩ | ⟨lost, absent⟩
  · rw [found] at said
    have text : docStr doc field.path = (readItem inner).asStr := by
      rw [docStr, ← keys, walked, asStr_readItem]
      rfl
    have value : field.reads (readItem inner) = some a := said
    rw [instead, text, ← reads, value]
    rfl
  · have nothing : docStr doc field.path = none := by
      rw [docStr, ← keys, lost]
      rfl
    rw [instead, nothing]
    cases look : (readItem (.table doc)).look field.keys with
    | found value => exact absurd look (absent value)
    | missing =>
      rw [look] at said
      exact Option.some.inj said
    | blocked level =>
      rw [look, under] at said
      split at said
      · exact Option.some.inj said
      · cases said

theorem layered_merge_found (lower : Look) (value : Figment.Value) :
    field.layered default (lower.merge (.found value)) =
      field.reads value := by
  cases lower with
  | missing | blocked => rfl
  | found below =>
    change field.reads (below.merge value) = _
    rw [reads, Figment.asStr_merge, reads]

theorem layered_under {text : String}
    (stated : field.read text = some default) (document : Look)
    (depth : Nat) :
    field.layered default (((Look.found (.string text)).merge document).merge
      (.missing depth)) = field.under default depth document := by
  cases document with
  | found value =>
    change field.reads ((Figment.Value.string text).merge value) = _
    rw [reads, Figment.asStr_merge]
    rfl
  | missing level => exact stated
  | blocked level =>
    change field.layered default ((Look.blocked level).merge _) = _
    rw [Look.merge, under]
    split
    · rfl
    · rfl

/-- The four layers at the place of a field. -/
theorem salvaged_iff_heeded (plain : datetimeKey ∉ field.keys) {text : String}
    (stated : field.read text = some default) {files vars : Look} :
    (∀ a, field.layered default ((((Look.found (.string text)).merge
        ((readItem (.table doc)).look field.keys)).merge files).merge vars) =
          some a →
        (field.own host).getD (field.instead default doc) = a) ↔
      field.Heeded default host doc files vars := by
  cases vars with
  | found value =>
    simp only [layered_merge_found, getD_own_iff]
    constructor
    · intro salvaged
      constructor
      · intro read a same said
        cases same
        exact salvaged a said
      · simp
      · simp
      · simp
    · intro heeded a said
      exact heeded.spelled value a rfl said
  | blocked level =>
    rw [Look.merge_blocked]
    exact iff_of_true (by rintro a ⟨⟩)
      ⟨by simp, by simp, by simp, by simp⟩
  | missing depth =>
    cases files with
    | found value =>
      have kept (lower : Look) : field.layered default
          ((lower.merge (.found value)).merge (.missing depth)) =
            field.reads value := by
        rw [← layered_merge_found lower value]
        cases lower <;> rfl
      simp only [kept, getD_own_iff]
      constructor
      · intro salvaged
        constructor
        · simp
        · intro level read a _ same said
          cases same
          exact salvaged a said
        · simp
        · simp
      · intro heeded a said
        exact heeded.filed depth value a rfl rfl said
    | blocked level =>
      rw [Look.merge_blocked, Look.merge]
      constructor
      · intro salvaged
        constructor
        · simp
        · simp
        · intro outer inner same sameInner reached
          cases same
          cases sameInner
          rw [if_pos reached] at salvaged
          exact getD_own_iff.mp (salvaged default rfl)
        · simp
      · intro heeded a said
        split at said
        · rename_i reached
          rw [← Option.some.inj said]
          exact getD_own_iff.mpr
            (heeded.cleared depth level rfl rfl reached)
        · cases said
    | missing level =>
      rw [Look.merge_missing_missing, layered_under stated, max_comm]
      constructor
      · intro salvaged
        constructor
        · simp
        · simp
        · simp
        · intro outer inner a mine same sameInner said own
          cases same
          cases sameInner
          have whole := salvaged a said
          rwa [own] at whole
      · intro heeded a said
        rw [getD_own_iff]
        cases own : field.own host with
        | none => exact .inr ⟨rfl, instead_of_under plain said⟩
        | some mine =>
          rw [heeded.covered depth level a mine rfl rfl said own]
          exact .inl rfl

end Field

section Rescue

variable {Addr Rest : Type} {parsers : Parsers Addr Rest}

/-- The layers of a document, files and variables. -/
def stacked (defaults : Defaults parsers) (doc : Document)
    (files vars : Figment.Value) : Figment.Value :=
  ((defaults.value.merge (readItem (.table doc))).merge files).merge vars

/-- The rescue configuration has the two fields the layers give. -/
def Recovers (defaults : Defaults parsers) (host : Host) (path : String)
    (merged : Figment.Value) : Prop :=
  (∀ dir, dataDirField.layered defaults.config.dataDir
      (merged.look dataDirField.keys) = some dir →
        (loadOrRecover defaults host path).1.dataDir = dir) ∧
    ∀ addr, (bindField parsers).layered defaults.config.bind
      (merged.look (bindField parsers).keys) = some addr →
        (loadOrRecover defaults host path).1.bind = addr

variable {defaults : Defaults parsers} {host : Host} {path text : String}
variable {doc : Document} {files : Figment.Value} {reason : String}

theorem load_eq_error (there : host.isFile path = true)
    (read : host.readFile path = .ok text)
    (parsed : parsers.parseToml text = .ok doc)
    (filed : fileEnv parsers host = .ok files)
    (rejected : parsers.extract
      (stacked defaults doc files (env parsers host.vars)) = .error reason) :
    load defaults host path = .error
      (s!"failed to load configuration (file: {path}, env: SHARERR_*): " ++
        reason) := by
  have document : tomlFile parsers host path = .ok (readItem (.table doc)) := by
    rw [tomlFile, if_pos there, read]
    change (parsers.parseToml text).bind _ = _
    rw [parsed]
    rfl
  have layers : layered defaults host (tomlFile parsers host path) =
      .ok (stacked defaults doc files (env parsers host.vars)) := by
    rw [layered, document, filed]
    rfl
  rw [load, layers]
  change (parsers.extract _).mapError _ = _
  rw [rejected]
  rfl

theorem salvageDocument_eq (config : Config Addr Rest) :
    salvageDocument parsers config doc =
      { config with
        dataDir := (docStr doc dataDirPath).getD config.dataDir
        bind := ((docStr doc serverBindPath).bind parsers.parseAddr).getD
          config.bind } := by
  unfold salvageDocument
  cases docStr doc dataDirPath <;>
    cases (docStr doc serverBindPath).bind parsers.parseAddr <;> rfl

theorem salvageEnv_eq (config : Config Addr Rest) :
    salvageEnv parsers config host =
      { config with
        dataDir := (host.var (envVar dataDirPath)).getD config.dataDir
        bind := ((host.var (envVar serverBindPath)).bind
          parsers.parseAddr).getD config.bind } := by
  unfold salvageEnv
  cases host.var (envVar dataDirPath) <;>
    cases (host.var (envVar serverBindPath)).bind parsers.parseAddr <;> rfl

theorem recovered_eq {message : String}
    (broken : load defaults host path = .error message)
    (read : host.readFile path = .ok text)
    (parsed : parsers.parseToml text = .ok doc) :
    (loadOrRecover defaults host path).1.dataDir =
        (dataDirField.own host).getD
          (dataDirField.instead defaults.config.dataDir doc) ∧
      (loadOrRecover defaults host path).1.bind =
        ((bindField parsers).own host).getD
          ((bindField parsers).instead defaults.config.bind doc) := by
  have salvaged : (loadOrRecover defaults host path).1 = salvageEnv parsers
      (salvageDocument parsers defaults.config doc) host := by
    simp only [loadOrRecover, broken, read, Except.bind, parsed]
  rw [salvaged, salvageEnv_eq, salvageDocument_eq, Field.own, Field.own,
    Field.instead, Field.instead]
  simp [dataDirField, bindField]

/-- All that speaks of the field is the variable in capitals, whose text is
read as it stands. -/
structure Plain {A : Type} (parsers : Parsers Addr Rest) (field : Field A)
    (host : Host) : Prop where
  names : (host.vars.map (·.1)).Nodup
  capital : envKeys parsers (envVar field.path) = some field.keys
  vars : ∀ name text keys, (name, text) ∈ host.vars →
    envKeys parsers name = some keys →
      (∃ depth, (Figment.nest keys (parsers.parseValue text)).look
        field.keys = .missing depth) ∨
          name = envVar field.path ∧ parsers.parseValue text = .string text
  files : ∀ entry ∈ fileOverrides parsers host.vars, ∀ value, ∃ depth,
    (Figment.nest (splitDots entry.path.toList []) value).look field.keys =
      .missing depth

/-- What a list of variables says of a field: the text of the one in capitals,
or nothing where that one is not among them. -/
def Speaks {A : Type} (field : Field A) (vars : List (String × String))
    (look : Look) : Prop :=
  (∃ text, look = .found (.string text) ∧
      (envVar field.path, text) ∈ vars) ∨
    (∃ depth, look = .missing depth) ∧
      envVar field.path ∉ vars.map (·.1)

variable {A : Type} {field : Field A}

theorem mergeFile_eq {merged next : Figment.Value} {entry : FileOverride}
    (step : mergeFile parsers host merged entry = .ok next) :
    ∃ value, next = merged.merge
      (Figment.nest (splitDots entry.path.toList []) value) := by
  unfold mergeFile at step
  cases read : host.readFile entry.file with
  | error reason =>
    rw [read] at step
    cases step
  | ok raw =>
    rw [read] at step
    refine ⟨parsers.parseValue (Rust.trim raw), ?_⟩
    simp only [Except.mapError, bind, Except.bind] at step
    split at step
    · exact (Except.ok.inj step).symm
    · cases step

theorem mergeVar_speaks (plain : Plain parsers field host)
    (named : "" ∉ field.keys) {vars : List (String × String)}
    {merged : Figment.Value} {name text : String}
    (listed : (name, text) ∈ host.vars)
    (spoken : Speaks field vars (merged.look field.keys)) :
    Speaks field (vars ++ [(name, text)])
      ((mergeVar parsers merged (name, text)).look field.keys) := by
  have unsaid (other : name ≠ envVar field.path) {look : Look}
      (spoken : Speaks field vars look) :
      Speaks field (vars ++ [(name, text)]) look := by
    rcases spoken with ⟨said, found, listed⟩ | ⟨missing, unset⟩
    · exact .inl ⟨said, found, List.mem_append_left _ listed⟩
    · refine .inr ⟨missing, ?_⟩
      rw [List.map_append, List.mem_append, not_or]
      exact ⟨unset, by simpa using Ne.symm other⟩
  rw [mergeVar]
  cases heard : envKeys parsers name with
  | none =>
    refine unsaid (fun same => ?_) spoken
    rw [same, plain.capital] at heard
    cases heard
  | some keys =>
    change Speaks field _ ((merged.merge _).look field.keys)
    rw [Figment.look_merge]
    rcases plain.vars name text keys listed heard with
      ⟨depth, missing⟩ | ⟨same, stands⟩
    · rw [missing]
      have other : name ≠ envVar field.path := by
        intro same
        rw [same, plain.capital] at heard
        cases heard
        rw [Figment.look_nest_self named] at missing
        cases missing
      refine unsaid other ?_
      rcases spoken with ⟨said, found, listed⟩ | ⟨⟨level, lost⟩, unset⟩
      · exact .inl ⟨said, by rw [found]; rfl, listed⟩
      · exact .inr ⟨⟨max level depth, by rw [lost]; rfl⟩, unset⟩
    · subst same
      rw [plain.capital] at heard
      cases heard
      rw [Figment.look_nest_self named, stands]
      refine .inl ⟨text, ?_, by simp⟩
      cases merged.look field.keys with
      | missing | blocked => rfl
      | found below => cases below <;> rfl

theorem env_speaks (plain : Plain parsers field host)
    (named : "" ∉ field.keys) (inner : field.keys ≠ []) :
    Speaks field host.vars ((env parsers host.vars).look field.keys) := by
  have run (done rest : List (String × String)) (merged : Figment.Value)
      (listed : ∀ entry ∈ rest, entry ∈ host.vars)
      (spoken : Speaks field done (merged.look field.keys)) :
      Speaks field (done ++ rest)
        ((rest.foldl (mergeVar parsers) merged).look field.keys) := by
    induction rest generalizing done merged with
    | nil => rwa [List.append_nil]
    | cons entry rest ih =>
      obtain ⟨name, text⟩ := entry
      have next := mergeVar_speaks plain named
        (listed _ List.mem_cons_self) spoken
      rw [List.append_cons, List.foldl_cons]
      exact ih (done ++ [(name, text)]) (mergeVar parsers merged (name, text))
        (fun later after => listed later (List.mem_cons_of_mem _ after)) next
  refine run [] host.vars (.dict []) (fun _ listed => listed) ?_
  refine .inr ⟨⟨0, ?_⟩, List.not_mem_nil⟩
  cases keys : field.keys with
  | nil => exact absurd keys inner
  | cons => rfl

theorem fileEnv_missing (plain : Plain parsers field host)
    (inner : field.keys ≠ []) (filed : fileEnv parsers host = .ok files) :
    ∃ depth, files.look field.keys = .missing depth := by
  have run (rest : List FileOverride) (merged : Figment.Value)
      (listed : ∀ entry ∈ rest, entry ∈ fileOverrides parsers host.vars)
      (lost : ∃ depth, merged.look field.keys = .missing depth)
      (filed : rest.foldlM (mergeFile parsers host) merged = .ok files) :
      ∃ depth, files.look field.keys = .missing depth := by
    induction rest generalizing merged with
    | nil =>
      cases filed
      exact lost
    | cons entry rest ih =>
      rw [List.foldlM_cons] at filed
      cases step : mergeFile parsers host merged entry with
      | error reason =>
        rw [step] at filed
        cases filed
      | ok next =>
        rw [step] at filed
        refine ih next (fun later after => listed later (by simp [after]))
          ?_ filed
        obtain ⟨value, rfl⟩ := mergeFile_eq step
        obtain ⟨level, lost⟩ := lost
        obtain ⟨depth, missing⟩ :=
          plain.files entry (listed entry (by simp)) value
        exact ⟨max level depth, by
          rw [Figment.look_merge, lost, missing]; rfl⟩
  refine run _ _ (fun _ listed => listed) ⟨0, ?_⟩ filed
  cases keys : field.keys with
  | nil => exact absurd keys inner
  | cons => rfl

/-- In a plain environment a field is salvaged as the layers have it, whatever
the document says. -/
theorem heeded_of_plain (plain : Plain parsers field host)
    (named : "" ∉ field.keys) (inner : field.keys ≠ [])
    (filed : fileEnv parsers host = .ok files) (doc : Document)
    (default : A) :
    field.Heeded default host doc (files.look field.keys)
      ((env parsers host.vars).look field.keys) := by
  obtain ⟨depth, lost⟩ := fileEnv_missing plain inner filed
  rw [lost]
  rcases env_speaks plain named inner with
    ⟨text, found, listed⟩ | ⟨⟨level, missing⟩, unset⟩
  · rw [found]
    have own : field.own host = field.read text := by
      rw [Field.own, Host.var, IndexMap.get_of_mem plain.names listed]
      rfl
    constructor
    · intro value a same said
      cases same
      exact .inl (own.trans said)
    · nofun
    · nofun
    · nofun
  · rw [missing]
    have own : field.own host = none := by
      rw [Field.own, Host.var, IndexMap.get_eq_none unset]
      rfl
    constructor
    · nofun
    · nofun
    · nofun
    · intro _ _ a mine _ _ _ said
      rw [own] at said
      cases said

/-- For every environment and every document that makes no configuration: the
two fields are those of the layers if and only if the document, the files and
the variables meet the conditions at the place of each. -/
theorem recovered_iff_heeded (defaults : Defaults parsers) (host : Host)
    (path : String) {text reason : String} {doc : Document}
    {files : Figment.Value} (there : host.isFile path = true)
    (read : host.readFile path = .ok text)
    (parsed : parsers.parseToml text = .ok doc)
    (filed : fileEnv parsers host = .ok files)
    (rejected : parsers.extract
      (stacked defaults doc files (env parsers host.vars)) = .error reason) :
    Recovers defaults host path
        (stacked defaults doc files (env parsers host.vars)) ↔
      dataDirField.Heeded defaults.config.dataDir host doc
          (files.look dataDirField.keys)
          ((env parsers host.vars).look dataDirField.keys) ∧
        (bindField parsers).Heeded defaults.config.bind host doc
          (files.look (bindField parsers).keys)
          ((env parsers host.vars).look (bindField parsers).keys) := by
  have broken := load_eq_error there read parsed filed rejected
  obtain ⟨dataDir, bind⟩ := recovered_eq broken read parsed
  obtain ⟨bindText, bindLook, bindRead⟩ := defaults.bind
  have dirKeys : dataDirField.keys = ["data_dir"] := by decide
  have bindKeys : (bindField parsers).keys = ["server", "bind"] := by
    change splitDots serverBindPath.toList [] = _
    decide
  have dirLook : defaults.value.look dataDirField.keys =
      .found (.string defaults.config.dataDir) := by
    rw [dirKeys, defaults.dataDir]
  rw [← bindKeys] at bindLook
  have dirPlain : datetimeKey ∉ dataDirField.keys := by decide
  have bindPlain : datetimeKey ∉ (bindField parsers).keys := by
    rw [bindKeys]
    decide
  rw [Recovers, dataDir, bind, stacked, Figment.look_merge,
    Figment.look_merge, Figment.look_merge, Figment.look_merge,
    Figment.look_merge, Figment.look_merge, dirLook, bindLook]
  exact and_congr (Field.salvaged_iff_heeded dirPlain rfl)
    (Field.salvaged_iff_heeded bindPlain bindRead)

end Rescue

/-- A value of ASCII text, which loses a pair of quotation marks around it. -/
def unquoted (text : String) : Figment.Value :=
  .string (((Rust.stripPrefix "\"" text).bind (Rust.stripSuffix "\"")).getD
    text)

def typoText : String := "taag = \"typo\"\ndata_dir = \"/from-file\"\n"

def typoDocument : Document :=
  [("taag", .value (.string "typo")),
    ("data_dir", .value (.string "/from-file"))]

/-- The ports of the unspecified address that the texts here speak of. -/
def knownAddr (text : String) : Option Nat :=
  IndexMap.get [("0.0.0.0:8477", 8477), ("0.0.0.0:9100", 9100)] text

/-- A configuration of the two fields, without unknown ones. -/
def extractKnown (merged : Figment.Value) : Except String (Config Nat Unit) :=
  match merged.look ["taag"], merged.look ["data_dir"],
      merged.look ["server", "bind"] with
  | .missing _, .found dir, .found bind =>
    match dir.asStr, bind.asStr.bind knownAddr with
    | some dir, some addr => .ok ⟨dir, addr, ()⟩
    | _, _ => .error "invalid type"
  | .missing _, _, _ => .error "missing field"
  | _, _, _ => .error "unknown field: found taag"

def parsers : Parsers Nat Unit where
  toUppercase text := String.ofList (text.toList.map Char.toUpper)
  toLowercase text := String.ofList (text.toList.map Char.toLower)
  parseValue := unquoted
  notMap _ := "invalid type: expected map"
  parseToml text :=
    if text = typoText then .ok typoDocument else .error "invalid document"
  parseAddr := knownAddr
  extract := extractKnown

def defaults : Defaults parsers where
  config := ⟨"/data", 8477, ()⟩
  value := .dict [("data_dir", .string "/data"),
    ("server", .dict [("bind", .string "0.0.0.0:8477")])]
  dataDir := rfl
  bind := ⟨"0.0.0.0:8477", rfl, rfl⟩

/-- A process with the document, a secret and the given variables. -/
def hostOf (vars : List (String × String)) : Host where
  vars := vars
  readFile path :=
    if path = "sharerr.toml" then .ok typoText
    else if path = "/run/secrets/dir" then .ok "/srv/sharerr\n"
    else .error "No such file or directory"
  isFile path := path = "sharerr.toml"

/-- Both fields come from the variables in capitals, over a document that has
one of them. -/
theorem from_env_recovered :
    Recovers defaults (hostOf [("SHARERR_DATA_DIR", "/from-env"),
        ("SHARERR_SERVER__BIND", "0.0.0.0:9100")]) "sharerr.toml"
      (stacked defaults typoDocument (.dict [])
        (env parsers [("SHARERR_DATA_DIR", "/from-env"),
          ("SHARERR_SERVER__BIND", "0.0.0.0:9100")])) := by
  have dir : Plain parsers dataDirField
      (hostOf [("SHARERR_DATA_DIR", "/from-env"),
        ("SHARERR_SERVER__BIND", "0.0.0.0:9100")]) := by
    refine ⟨by decide, by decide, ?_, nofun⟩
    intro name text keys listed heard
    rcases List.mem_pair.mp listed with entry | entry
    · cases entry
      exact .inr ⟨by decide, rfl⟩
    · cases entry
      have other : envKeys parsers "SHARERR_SERVER__BIND" =
          some ["server", "bind"] := by decide
      cases other.symm.trans heard
      exact .inl ⟨0, rfl⟩
  have bind : Plain parsers (bindField parsers)
      (hostOf [("SHARERR_DATA_DIR", "/from-env"),
        ("SHARERR_SERVER__BIND", "0.0.0.0:9100")]) := by
    refine ⟨by decide, by decide, ?_, nofun⟩
    intro name text keys listed heard
    rcases List.mem_pair.mp listed with entry | entry
    · cases entry
      have other : envKeys parsers "SHARERR_DATA_DIR" = some ["data_dir"] := by
        decide
      cases other.symm.trans heard
      exact .inl ⟨0, rfl⟩
    · cases entry
      exact .inr ⟨by decide, rfl⟩
  exact (recovered_iff_heeded defaults _ "sharerr.toml" rfl rfl rfl rfl
    rfl).mpr ⟨heeded_of_plain dir (by decide) nofun rfl _ _,
      heeded_of_plain bind (by decide) nofun rfl _ _⟩

theorem env_dir {name text dir : String}
    (heard : envKeys parsers name = some ["data_dir"])
    (said : unquoted text = .string dir) :
    env parsers [(name, text)] = .dict [("data_dir", .string dir)] := by
  rw [env, List.foldl_cons, List.foldl_nil, mergeVar, heard, ← said]
  rfl

/-- The document is rejected, and the directory the layers give is not the one
the rescue has. -/
structure Misplaced (host : Host) (files : Figment.Value) (dir : String) :
    Prop where
  there : host.isFile "sharerr.toml" = true
  read : host.readFile "sharerr.toml" = .ok typoText
  parsed : parsers.parseToml typoText = .ok typoDocument
  filed : fileEnv parsers host = .ok files
  rejected : parsers.extract (stacked defaults typoDocument files
    (env parsers host.vars)) = .error "unknown field: found taag"
  layered : (stacked defaults typoDocument files
    (env parsers host.vars)).look ["data_dir"] = .found (.string dir)
  lost : ¬ Recovers defaults host "sharerr.toml"
    (stacked defaults typoDocument files (env parsers host.vars))

theorem misplaced_of_look {host : Host} {files : Figment.Value}
    {dir : String} (there : host.isFile "sharerr.toml" = true)
    (read : host.readFile "sharerr.toml" = .ok typoText)
    (filed : fileEnv parsers host = .ok files)
    (rejected : parsers.extract (stacked defaults typoDocument files
      (env parsers host.vars)) = .error "unknown field: found taag")
    (layered : (stacked defaults typoDocument files
      (env parsers host.vars)).look ["data_dir"] = .found (.string dir))
    (other : (loadOrRecover defaults host "sharerr.toml").1.dataDir ≠ dir) :
    Misplaced host files dir := by
  refine ⟨there, read, rfl, filed, rejected, layered, ?_⟩
  intro recovers
  have keys : dataDirField.keys = ["data_dir"] := by decide
  refine other (recovers.1 dir ?_)
  rw [keys, layered]
  rfl

/-- A secret file, a name in small letters and a text in quotation marks each
name the directory for the layers and not for the rescue. -/
theorem other_spellings_lost :
    Misplaced (hostOf [("SHARERR_DATA_DIR_FILE", "/run/secrets/dir")])
        (.dict [("data_dir", .string "/srv/sharerr")]) "/srv/sharerr" ∧
      Misplaced (hostOf [("sharerr_data_dir", "/srv/sharerr")]) (.dict [])
        "/srv/sharerr" ∧
      Misplaced (hostOf [("SHARERR_DATA_DIR", "\"/srv/sharerr\"")])
        (.dict []) "/srv/sharerr" := by
  refine ⟨?_, ?_, ?_⟩
  · exact misplaced_of_look rfl rfl rfl rfl rfl (by decide)
  · have vars : env parsers [("sharerr_data_dir", "/srv/sharerr")] =
        .dict [("data_dir", .string "/srv/sharerr")] :=
      env_dir (by decide) rfl
    refine misplaced_of_look rfl rfl rfl rfl ?_ (by decide)
    rw [hostOf, vars]
    rfl
  · have vars : env parsers [("SHARERR_DATA_DIR", "\"/srv/sharerr\"")] =
        .dict [("data_dir", .string "/srv/sharerr")] :=
      env_dir (by decide) rfl
    refine misplaced_of_look rfl rfl rfl rfl ?_ (by decide)
    rw [hostOf, vars]
    rfl

end Startup

end Sharerr
