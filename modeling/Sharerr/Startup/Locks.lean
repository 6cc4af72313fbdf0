import Sharerr.Figment.Laid
import Sharerr.Rust.BTreeMap
import Sharerr.Startup.Recovered

/-!
# Settings that are locked

A setting that a variable pins is shown locked, with the name of the variable.
The names are scanned apart from the two layers that read them, and the scan is
right exactly where one name is spelled for each path and what decides at a
config path is spelled for it.
-/

namespace Sharerr

open Config (splitDots)

namespace Startup

open Figment (IsLastSet Look)

section Locking

variable {Addr Rest : Type} (parsers : Parsers Addr Rest)

/-- The path one variable is taken to pin. -/
def overriddenPath (name : String) : Option String := do
  let rest ← Rust.stripPrefix "SHARERR_" (parsers.toUppercase name)
  if rest = "" ∨ nonConfigEnv.contains rest then none
  else
    let rest := (Rust.stripSuffix "_FILE" rest).getD rest
    if rest = "" then none
    else
      let dotted := Rust.replacePair '_' '_' ['.']
        (parsers.toLowercase rest).toList
      some (String.ofList dotted)

def overrides (vars : List (String × String)) : List (String × String) :=
  vars.filterMap fun (name, _) =>
    (overriddenPath parsers name).map fun path => (path, name)

def collectOverrides (vars : List (String × String)) :
    List (String × String) :=
  Rust.BTreeMap.collect (overrides parsers vars)

/-- What one layer reads a variable as. -/
structure Setting where
  name : String
  value : Figment.Value

/-- The value of an entry of `FileEnv`, where its file can be read. -/
def FileOverride.setting (host : Host) (entry : FileOverride) :
    Option Setting :=
  (host.readFile entry.file).toOption.map fun raw =>
    ⟨entry.name, Figment.nest (splitDots entry.path.toList [])
      (parsers.parseValue (Rust.trim raw))⟩

def fileSetting (host : Host) : String × String → Option Setting
  | (name, file) =>
    (fileOverride parsers name file).bind (FileOverride.setting parsers host)

def fileSettings (host : Host) (vars : List (String × String)) :
    List Setting :=
  vars.filterMap (fileSetting parsers host)

def envSetting : String × String → Option Setting
  | (name, text) =>
    (envKeys parsers name).map fun keys =>
      ⟨name, Figment.nest keys (parsers.parseValue text)⟩

def envSettings (vars : List (String × String)) : List Setting :=
  vars.filterMap (envSetting parsers)

section Settings

variable {parsers}

theorem filterMap_concat {α β : Type} (read : α → Option β) (entries : List α)
    (last : α) : (entries ++ [last]).filterMap read =
      entries.filterMap read ++ (read last).toList := by
  rw [List.filterMap_append]
  cases there : read last with
  | none =>
    rw [List.filterMap_cons_none there]
    rfl
  | some value =>
    rw [List.filterMap_cons_some there]
    rfl

theorem fileSettings_concat (host : Host) (vars : List (String × String))
    (last : String × String) : fileSettings parsers host (vars ++ [last]) =
      fileSettings parsers host vars ++
        (fileSetting parsers host last).toList :=
  filterMap_concat _ vars last

theorem envSettings_concat (vars : List (String × String))
    (last : String × String) : envSettings parsers (vars ++ [last]) =
      envSettings parsers vars ++ (envSetting parsers last).toList :=
  filterMap_concat _ vars last

theorem env_eq_laid (vars : List (String × String)) :
    env parsers vars =
      Figment.laid ((envSettings parsers vars).map (·.value)) := by
  induction vars using List.reverseRecOn with
  | nil => rfl
  | append_singleton vars last ih =>
    obtain ⟨name, text⟩ := last
    have split : env parsers (vars ++ [(name, text)]) =
        mergeVar parsers (env parsers vars) (name, text) := by
      rw [env, List.foldl_append, List.foldl_cons, List.foldl_nil, env]
    rw [split, ih, envSettings_concat, mergeVar, envSetting]
    cases envKeys parsers name with
    | none =>
      rw [Option.map_none, Option.toList_none, List.append_nil]
    | some keys =>
      rw [Option.map_some, Option.toList_some, List.map_append,
        List.map_singleton, Figment.laid_concat]

/-- An entry that makes a layer: its file can be read, and its path has a
first key. -/
def FileOverride.Readable (parsers : Parsers Addr Rest) (host : Host)
    (entry : FileOverride) : Prop :=
  ∃ setting, entry.setting parsers host = some setting ∧
    ∃ entries, setting.value = .dict entries

variable {host : Host}

theorem mergeFile_eq_ok {merged next : Figment.Value} {entry : FileOverride} :
    mergeFile parsers host merged entry = .ok next ↔
      ∃ setting, entry.setting parsers host = some setting ∧
        (∃ entries, setting.value = .dict entries) ∧
        next = merged.merge setting.value := by
  unfold mergeFile FileOverride.setting
  cases host.readFile entry.file with
  | error reason =>
    refine iff_of_false nofun ?_
    rintro ⟨_, read, _⟩
    cases read
  | ok raw =>
    simp only [Except.mapError, bind, Except.bind, Except.toOption,
      Option.map_some, Option.some.injEq, exists_eq_left']
    split
    case h_1 entries there =>
        rw [there]
        constructor
        · intro step
          exact ⟨⟨entries, rfl⟩, (Except.ok.inj step).symm⟩
        · rintro ⟨_, rfl⟩
          rfl
    case h_2 leaf =>
        refine iff_of_false nofun ?_
        rintro ⟨⟨entries, there⟩, _⟩
        exact leaf entries there

theorem foldlM_mergeFile_eq_ok {entries : List FileOverride}
    {merged files : Figment.Value} :
    entries.foldlM (mergeFile parsers host) merged = .ok files ↔
      (∀ entry ∈ entries, entry.Readable parsers host) ∧
        files = ((entries.filterMap (FileOverride.setting parsers host)).map
          (·.value)).foldl Figment.Value.merge merged := by
  induction entries generalizing merged with
  | nil =>
    constructor
    · intro ended
      exact ⟨List.forall_mem_nil _, (Except.ok.inj ended).symm⟩
    · rintro ⟨_, rfl⟩
      rfl
  | cons entry entries ih =>
    rw [List.foldlM_cons, List.forall_mem_cons]
    constructor
    · intro ended
      obtain ⟨next, first, ended⟩ := Rust.bind_eq_ok ended
      obtain ⟨setting, read, dict, rfl⟩ := mergeFile_eq_ok.mp first
      obtain ⟨readable, rfl⟩ := ih.mp ended
      rw [List.filterMap_cons_some read]
      exact ⟨⟨⟨setting, read, dict⟩, readable⟩, rfl⟩
    · rintro ⟨⟨⟨setting, read, dict⟩, readable⟩, files⟩
      rw [List.filterMap_cons_some read] at files
      rw [mergeFile_eq_ok.mpr ⟨setting, read, dict, rfl⟩]
      exact ih.mpr ⟨readable, files⟩

theorem fileEnv_eq_ok {files : Figment.Value} :
    fileEnv parsers host = .ok files ↔
      (∀ entry ∈ fileOverrides parsers host.vars,
          entry.Readable parsers host) ∧
        files = Figment.laid
          ((fileSettings parsers host host.vars).map (·.value)) := by
  have settings : fileSettings parsers host host.vars =
      (fileOverrides parsers host.vars).filterMap
        (FileOverride.setting parsers host) := by
    rw [fileOverrides, List.filterMap_filterMap]
    rfl
  rw [fileEnv, foldlM_mergeFile_eq_ok, settings]
  rfl

theorem name_of_fileOverride {name file : String} {entry : FileOverride}
    (override : fileOverride parsers name file = some entry) :
    entry.name = name := by
  obtain ⟨rest, _, override⟩ := Option.bind_eq_some_iff.mp override
  split at override
  · cases override
  · obtain ⟨path, _, override⟩ := Option.bind_eq_some_iff.mp override
    split at override
    · cases override
    · cases override
      rfl

theorem exists_of_mem_envSettings {vars : List (String × String)}
    {setting : Setting} (member : setting ∈ envSettings parsers vars) :
    ∃ entry ∈ vars, entry.1 = setting.name ∧
      envSetting parsers entry = some setting := by
  obtain ⟨⟨name, text⟩, listed, set⟩ := List.mem_filterMap.mp member
  refine ⟨(name, text), listed, ?_, set⟩
  rw [envSetting, Option.map_eq_some_iff] at set
  obtain ⟨keys, _, rfl⟩ := set
  rfl

theorem exists_of_mem_fileSettings {vars : List (String × String)}
    {setting : Setting} (member : setting ∈ fileSettings parsers host vars) :
    ∃ entry ∈ vars, entry.1 = setting.name ∧
      fileSetting parsers host entry = some setting := by
  obtain ⟨⟨name, file⟩, listed, set⟩ := List.mem_filterMap.mp member
  refine ⟨(name, file), listed, ?_, set⟩
  obtain ⟨entry, override, set⟩ := Option.bind_eq_some_iff.mp set
  obtain ⟨raw, _, rfl⟩ := Option.map_eq_some_iff.mp set
  exact (name_of_fileOverride override).symm

end Settings

def keysOf (path : String) : List String := splitDots path.toList []

/-- The setting puts a value at the path, or in its way. -/
def Setting.Sets (setting : Setting) (path : String) : Prop :=
  (setting.value.look (keysOf path)).IsSet

/-- One of the two layers sets a value at the path or at a table above it. -/
def Pinned (host : Host) (path : String) : Prop :=
  ∃ files, fileEnv parsers host = .ok files ∧
    ((files.look (keysOf path)).IsSet ∨
      ((env parsers host.vars).look (keysOf path)).IsSet)

/-- The value of the last of the settings that set the path is there. -/
def LastFound (settings : List Setting) (path name : String) : Prop :=
  ∃ setting, IsLastSet (·.value) (keysOf path) settings setting ∧
    (setting.value.look (keysOf path)).IsFound ∧ setting.name = name

/-- The value at the path is the one of this variable: of a plain one, or of
a file over which no plain variable is laid there. -/
def Wins (host : Host) (path name : String) : Prop :=
  LastFound (envSettings parsers host.vars) path name ∨
    ¬ ((env parsers host.vars).look (keysOf path)).IsSet ∧
      LastFound (fileSettings parsers host host.vars) path name

/-- The locks of these config paths: in whatever order the variables are
listed, they are the same, and those that the layers set, each with the name
of the variable that wins. -/
def LocksRight (host : Host) (paths : List String) : Prop :=
  ∀ vars : List (String × String), vars.Perm host.vars →
    collectOverrides parsers vars = collectOverrides parsers host.vars ∧
    ∀ path ∈ paths,
      (path ∈ (collectOverrides parsers vars).map (·.1) ↔
        Pinned parsers { host with vars := vars } path) ∧
      ∀ name, Rust.BTreeMap.get (collectOverrides parsers vars) path =
          some name →
        Wins parsers { host with vars := vars } path name

/-- The path that a name, or the name before `_FILE`, spells. -/
def Spells (name path : String) : Prop :=
  ∃ rest stem, Rust.stripPrefix "SHARERR_" (parsers.toUppercase name) =
      some rest ∧
    rest ∉ nonConfigEnv ∧ stem ≠ "" ∧
    (Rust.stripSuffix "_FILE" rest = some stem ∨
      Rust.stripSuffix "_FILE" rest = none ∧ stem = rest) ∧
    path = String.ofList (Rust.replacePair '_' '_' ['.']
      (parsers.toLowercase stem).toList)

/-- A setting decides at a path, last in some order of the variables: a plain
one that sets it, or a file that does where no plain one does. -/
def Uppermost (host : Host) (path : String) (setting : Setting) : Prop :=
  (setting ∈ envSettings parsers host.vars ∨
    setting ∈ fileSettings parsers host host.vars ∧
      ∀ plain ∈ envSettings parsers host.vars, ¬ plain.Sets path) ∧
  setting.Sets path

/-- One name is spelled for each path, and what decides at a config path is
spelled for it. -/
structure OneSpelling (host : Host) (paths : List String) : Prop where
  names : ∀ one ∈ host.vars, ∀ other ∈ host.vars, ∀ path,
    Spells parsers one.1 path → Spells parsers other.1 path →
      one.1 = other.1
  /-- A config path some name is spelled for is set, and the files can be
  read. -/
  set : ∀ path ∈ paths, ∀ entry ∈ host.vars, Spells parsers entry.1 path →
    (∃ files, fileEnv parsers host = .ok files) ∧
      ∃ setting, Uppermost parsers host path setting
  uppermost : ∀ files, fileEnv parsers host = .ok files →
    ∀ path ∈ paths, ∀ setting, Uppermost parsers host path setting →
      Spells parsers setting.name path ∧
        (setting.value.look (keysOf path)).IsFound

section Proof

variable {parsers}

theorem overriddenPath_eq_some {name path : String} :
    overriddenPath parsers name = some path ↔ Spells parsers name path := by
  constructor
  · intro overridden
    obtain ⟨rest, stripped, overridden⟩ :=
      Option.bind_eq_some_iff.mp overridden
    split at overridden
    case isTrue => cases overridden
    case isFalse config =>
        simp only [not_or, List.contains_iff_mem] at config
        dsimp only at overridden
        split at overridden
        case isTrue => cases overridden
        case isFalse named =>
            refine ⟨rest, _, stripped, config.2, named, ?_,
              (Option.some.inj overridden).symm⟩
            cases Rust.stripSuffix "_FILE" rest with
            | none => exact .inr ⟨rfl, rfl⟩
            | some stem => exact .inl rfl
  · rintro ⟨rest, stem, stripped, config, named, suffix, rfl⟩
    have stemOf : (Rust.stripSuffix "_FILE" rest).getD rest = stem := by
      rcases suffix with suffix | ⟨suffix, rfl⟩
      · rw [suffix, Option.getD_some]
      · rw [suffix, Option.getD_none]
    have filled : rest ≠ "" := by
      rintro rfl
      rcases suffix with suffix | ⟨_, rfl⟩
      · cases suffix
      · exact named rfl
    rw [overriddenPath, stripped]
    simp only [Option.bind_eq_bind, Option.bind_some]
    rw [if_neg (by simp [filled, config]), stemOf, if_neg named]

theorem overrides_concat (vars : List (String × String))
    (last : String × String) : overrides parsers (vars ++ [last]) =
      overrides parsers vars ++ ((overriddenPath parsers last.1).map
        fun path => (path, last.1)).toList :=
  filterMap_concat _ vars last

variable {vars : List (String × String)}

theorem mem_overrides {path name : String} :
    (path, name) ∈ overrides parsers vars ↔
      ∃ entry ∈ vars, entry.1 = name ∧ Spells parsers name path := by
  rw [overrides, List.mem_filterMap]
  constructor
  · rintro ⟨entry, listed, overridden⟩
    obtain ⟨_, spelled, same⟩ := Option.map_eq_some_iff.mp overridden
    cases same
    exact ⟨entry, listed, rfl, overriddenPath_eq_some.mp spelled⟩
  · rintro ⟨entry, listed, rfl, spelled⟩
    refine ⟨entry, listed, ?_⟩
    dsimp only
    rw [overriddenPath_eq_some.mpr spelled, Option.map_some]

/-- The last name that is spelled for a path is the one it has. -/
theorem get_collectOverrides_concat {last : String × String} {path : String}
    (spelled : Spells parsers last.1 path) :
    Rust.BTreeMap.get (collectOverrides parsers (vars ++ [last])) path =
      some last.1 := by
  rw [collectOverrides, overrides_concat,
    overriddenPath_eq_some.mpr spelled, Option.map_some, Option.toList_some,
    Rust.BTreeMap.collect_append, Rust.BTreeMap.get_insert, if_pos rfl]

theorem spells_of_get {vars : List (String × String)} {path name : String}
    (named : Rust.BTreeMap.get (collectOverrides parsers vars) path =
      some name) :
    (∃ entry ∈ vars, entry.1 = name) ∧ Spells parsers name path := by
  obtain ⟨entry, listed, same, spelled⟩ := mem_overrides.mp
    (Rust.BTreeMap.mem_collect (Rust.BTreeMap.mem_of_get named))
  exact ⟨⟨entry, listed, same⟩, spelled⟩

theorem mem_keys_collectOverrides {path : String} :
    path ∈ (collectOverrides parsers vars).map (·.1) ↔
      ∃ entry ∈ vars, Spells parsers entry.1 path := by
  rw [collectOverrides, Rust.BTreeMap.mem_keys_collect, List.mem_map]
  constructor
  · rintro ⟨⟨_, name⟩, member, rfl⟩
    obtain ⟨entry, listed, rfl, spelled⟩ := mem_overrides.mp member
    exact ⟨entry, listed, spelled⟩
  · rintro ⟨entry, listed, spelled⟩
    exact ⟨(path, entry.1), mem_overrides.mpr ⟨entry, listed, rfl, spelled⟩,
      rfl⟩

theorem exists_perm_concat {α : Type} {entries : List α} {entry : α}
    (member : entry ∈ entries) :
    ∃ others, (others ++ [entry]).Perm entries := by
  obtain ⟨before, after, rfl⟩ := List.append_of_mem member
  refine ⟨before ++ after, ?_⟩
  exact (List.perm_append_singleton entry _).trans List.perm_middle.symm

theorem keysOf_eq_cons (path : String) :
    ∃ key keys, keysOf path = key :: keys :=
  List.exists_cons_of_ne_nil (Config.splitDots_ne_nil _ _)

theorem exists_sets_of_laid {settings : List Setting} {path : String}
    (isSet : ((Figment.laid (settings.map (·.value))).look
      (keysOf path)).IsSet) :
    ∃ setting ∈ settings, setting.Sets path := by
  by_contra none_
  obtain ⟨key, keys, split⟩ := keysOf_eq_cons path
  rw [split] at isSet
  refine Figment.not_isSet_laid (fun setting member sets => ?_) isSet
  refine none_ ⟨setting, member, ?_⟩
  rw [Setting.Sets, split]
  exact sets

variable {host : Host} {paths : List String} {path name : String}

theorem LastFound.isSet {settings : List Setting}
    (lastFound : LastFound settings path name) :
    ((Figment.laid (settings.map (·.value))).look (keysOf path)).IsSet := by
  obtain ⟨setting, last, ⟨found, there⟩, _⟩ := lastFound
  obtain ⟨merged, look, _⟩ := last.exists_look_laid there
  rw [look]
  nofun

theorem Wins.pinned {files : Figment.Value} (wins : Wins parsers host path name)
    (filed : fileEnv parsers host = .ok files) : Pinned parsers host path := by
  refine ⟨files, filed, ?_⟩
  rcases wins with plain | ⟨_, file⟩
  · rw [env_eq_laid]
    exact .inr plain.isSet
  · rw [(fileEnv_eq_ok.mp filed).2]
    exact .inl file.isSet

/-- The uppermost of the settings that set a path is the last plain one, or
the last file. -/
theorem exists_last_uppermost
    (set : ∃ setting, Uppermost parsers host path setting) :
    ∃ setting, Uppermost parsers host path setting ∧
      ((setting.value.look (keysOf path)).IsFound →
        Wins parsers host path setting.name) := by
  by_cases plain : ∃ setting ∈ envSettings parsers host.vars,
      setting.Sets path
  · obtain ⟨setting, last⟩ : ∃ setting, IsLastSet (·.value) (keysOf path)
        (envSettings parsers host.vars) setting :=
      Figment.exists_isLastSet plain
    exact ⟨setting, ⟨.inl last.mem, last.isSet⟩,
      fun isFound => .inl ⟨setting, last, isFound, rfl⟩⟩
  · have none_ : ∀ setting ∈ envSettings parsers host.vars,
        ¬ setting.Sets path :=
      fun setting member sets => plain ⟨setting, member, sets⟩
    obtain ⟨setting, listed, sets⟩ := set
    have file := listed.resolve_left fun member => none_ setting member sets
    obtain ⟨setting, last⟩ : ∃ setting, IsLastSet (·.value) (keysOf path)
        (fileSettings parsers host host.vars) setting :=
      Figment.exists_isLastSet ⟨_, file.1, sets⟩
    refine ⟨setting, ⟨.inr ⟨last.mem, none_⟩, last.isSet⟩, ?_⟩
    intro isFound
    refine .inr ⟨?_, setting, last, isFound, rfl⟩
    rw [env_eq_laid]
    exact fun isSet => plain (exists_sets_of_laid isSet)

theorem exists_uppermost_of_pinned (pinned : Pinned parsers host path) :
    ∃ setting, Uppermost parsers host path setting := by
  obtain ⟨files, filed, isSet⟩ := pinned
  by_cases plain : ∃ setting ∈ envSettings parsers host.vars,
      setting.Sets path
  · obtain ⟨setting, member, sets⟩ := plain
    exact ⟨setting, .inl member, sets⟩
  · have unset : ¬ ((env parsers host.vars).look (keysOf path)).IsSet := by
      rw [env_eq_laid]
      exact fun isSet => plain (exists_sets_of_laid isSet)
    have file := isSet.resolve_right unset
    rw [(fileEnv_eq_ok.mp filed).2] at file
    obtain ⟨setting, member, sets⟩ := exists_sets_of_laid file
    exact ⟨setting, .inr ⟨member, fun setting member sets =>
      plain ⟨setting, member, sets⟩⟩, sets⟩

theorem Uppermost.name_mem {setting : Setting}
    (uppermost : Uppermost parsers host path setting) :
    ∃ entry ∈ host.vars, entry.1 = setting.name := by
  rcases uppermost.1 with plain | ⟨file, _⟩
  · obtain ⟨entry, listed, named, _⟩ := exists_of_mem_envSettings plain
    exact ⟨entry, listed, named⟩
  · obtain ⟨entry, listed, named, _⟩ := exists_of_mem_fileSettings file
    exact ⟨entry, listed, named⟩

theorem Uppermost.perm {setting : Setting} (perm : vars.Perm host.vars) :
    Uppermost parsers { host with vars := vars } path setting ↔
      Uppermost parsers host path setting := by
  have plain (other : Setting) : other ∈ envSettings parsers vars ↔
      other ∈ envSettings parsers host.vars :=
    (perm.filterMap _).mem_iff
  have file : setting ∈ fileSettings parsers host vars ↔
      setting ∈ fileSettings parsers host host.vars :=
    (perm.filterMap _).mem_iff
  refine and_congr_left fun _ => or_congr (plain setting) ?_
  exact and_congr file (forall_congr' fun other =>
    imp_congr_left (plain other))

theorem exists_fileEnv_perm (perm : vars.Perm host.vars) :
    (∃ files, fileEnv parsers { host with vars := vars } = .ok files) ↔
      ∃ files, fileEnv parsers host = .ok files := by
  have entries (entry : FileOverride) : entry ∈ fileOverrides parsers vars ↔
      entry ∈ fileOverrides parsers host.vars :=
    (perm.filterMap _).mem_iff
  constructor
  · rintro ⟨files, filed⟩
    refine ⟨_, fileEnv_eq_ok.mpr ⟨fun entry member => ?_, rfl⟩⟩
    exact (fileEnv_eq_ok.mp filed).1 entry ((entries entry).mpr member)
  · rintro ⟨files, filed⟩
    refine ⟨_, fileEnv_eq_ok.mpr ⟨fun entry member => ?_, rfl⟩⟩
    exact (fileEnv_eq_ok.mp filed).1 entry ((entries entry).mp member)

theorem OneSpelling.perm (oneSpelling : OneSpelling parsers host paths)
    (perm : vars.Perm host.vars) :
    OneSpelling parsers { host with vars := vars } paths where
  names one oneListed other otherListed :=
    oneSpelling.names one (perm.mem_iff.mp oneListed) other
      (perm.mem_iff.mp otherListed)
  set path listed entry member spelled := by
    obtain ⟨filed, setting, uppermost⟩ :=
      oneSpelling.set path listed entry (perm.mem_iff.mp member) spelled
    exact ⟨(exists_fileEnv_perm perm).mpr filed, setting,
      (Uppermost.perm perm).mpr uppermost⟩
  uppermost files filed path listed setting uppermost := by
    obtain ⟨files, filed⟩ := (exists_fileEnv_perm perm).mp ⟨files, filed⟩
    exact oneSpelling.uppermost files filed path listed setting
      ((Uppermost.perm perm).mp uppermost)

/-- With one spelling for each path the locks are those of the layers. -/
theorem OneSpelling.locks (oneSpelling : OneSpelling parsers host paths)
    (listed : path ∈ paths) :
    (path ∈ (collectOverrides parsers host.vars).map (·.1) ↔
        Pinned parsers host path) ∧
      ∀ name, Rust.BTreeMap.get (collectOverrides parsers host.vars) path =
        some name → Wins parsers host path name := by
  have wins {files : Figment.Value} (filed : fileEnv parsers host = .ok files)
      (set : ∃ setting, Uppermost parsers host path setting) :
      ∃ entry ∈ host.vars, Spells parsers entry.1 path ∧
        Wins parsers host path entry.1 := by
    obtain ⟨setting, uppermost, wins⟩ := exists_last_uppermost set
    obtain ⟨spelled, isFound⟩ :=
      oneSpelling.uppermost files filed path listed setting uppermost
    obtain ⟨entry, member, named⟩ := uppermost.name_mem
    exact ⟨entry, member, named ▸ spelled, named ▸ wins isFound⟩
  refine ⟨⟨?_, ?_⟩, ?_⟩
  · intro locked
    obtain ⟨entry, member, spelled⟩ := mem_keys_collectOverrides.mp locked
    obtain ⟨⟨files, filed⟩, set⟩ :=
      oneSpelling.set path listed entry member spelled
    obtain ⟨_, _, _, wins⟩ := wins filed set
    exact wins.pinned filed
  · intro pinned
    obtain ⟨files, filed, _⟩ := id pinned
    obtain ⟨entry, member, spelled, _⟩ :=
      wins filed (exists_uppermost_of_pinned pinned)
    exact mem_keys_collectOverrides.mpr ⟨entry, member, spelled⟩
  · intro name named
    obtain ⟨⟨entry, member, rfl⟩, spelled⟩ := spells_of_get named
    obtain ⟨⟨files, filed⟩, set⟩ :=
      oneSpelling.set path listed entry member spelled
    obtain ⟨other, otherMember, otherSpelled, wins⟩ := wins filed set
    rwa [oneSpelling.names entry member other otherMember path spelled
      otherSpelled]

theorem OneSpelling.collectOverrides_eq {vars : List (String × String)}
    (oneSpelling : OneSpelling parsers host paths)
    (perm : vars.Perm host.vars) :
    collectOverrides parsers vars = collectOverrides parsers host.vars := by
  refine Rust.BTreeMap.eq_of_get Rust.BTreeMap.sorted_collect
    Rust.BTreeMap.sorted_collect (funext fun path => ?_)
  have keys : path ∈ (collectOverrides parsers vars).map (·.1) ↔
      path ∈ (collectOverrides parsers host.vars).map (·.1) := by
    rw [mem_keys_collectOverrides, mem_keys_collectOverrides]
    exact exists_congr fun entry => and_congr_left fun _ => perm.mem_iff
  cases here : Rust.BTreeMap.get (collectOverrides parsers host.vars) path with
  | none =>
    rw [Rust.BTreeMap.get_eq_none] at here ⊢
    exact fun member => here (keys.mp member)
  | some name =>
    cases there : Rust.BTreeMap.get (collectOverrides parsers vars) path with
    | none =>
      rw [Rust.BTreeMap.get_eq_none] at there
      refine absurd (keys.mpr ?_) there
      exact List.mem_map_of_mem (Rust.BTreeMap.mem_of_get here)
    | some other =>
      obtain ⟨⟨entry, member, rfl⟩, spelled⟩ := spells_of_get here
      obtain ⟨⟨entry', member', rfl⟩, spelled'⟩ := spells_of_get there
      rw [oneSpelling.names entry member entry' (perm.mem_iff.mp member')
        path spelled spelled']

namespace LocksRight

/-- A variable that spells a path is the one the path has. -/
theorem named (right : LocksRight parsers host paths)
    {entry : String × String} (member : entry ∈ host.vars)
    (spelled : Spells parsers entry.1 path) :
    Rust.BTreeMap.get (collectOverrides parsers host.vars) path =
      some entry.1 := by
  obtain ⟨others, perm⟩ := exists_perm_concat member
  rw [← (right _ perm).1]
  exact get_collectOverrides_concat spelled

theorem names (right : LocksRight parsers host paths)
    {one other : String × String} (oneListed : one ∈ host.vars)
    (otherListed : other ∈ host.vars) (oneSpelled : Spells parsers one.1 path)
    (otherSpelled : Spells parsers other.1 path) : one.1 = other.1 :=
  Option.some.inj ((right.named oneListed oneSpelled).symm.trans
    (right.named otherListed otherSpelled))

/-- The last plain variable of the list that sets a path wins there, so it is
spelled for it. -/
theorem of_plain (right : LocksRight parsers host paths)
    (listed : path ∈ paths) {files : Figment.Value}
    (filed : fileEnv parsers host = .ok files) {setting : Setting}
    (plain : setting ∈ envSettings parsers host.vars)
    (sets : setting.Sets path) :
    Spells parsers setting.name path ∧
      (setting.value.look (keysOf path)).IsFound := by
  obtain ⟨entry, member, _, set⟩ := exists_of_mem_envSettings plain
  obtain ⟨others, perm⟩ := exists_perm_concat member
  have settings : envSettings parsers (others ++ [entry]) =
      envSettings parsers others ++ [setting] := by
    rw [envSettings_concat, set, Option.toList_some]
  have isSet : ((env parsers (others ++ [entry])).look
      (keysOf path)).IsSet := by
    rw [env_eq_laid, settings]
    exact Figment.isSet_laid_concat sets _
  obtain ⟨locked, wins⟩ := (right _ perm).2 path listed
  obtain ⟨files, filed⟩ := (exists_fileEnv_perm perm).mpr ⟨files, filed⟩
  obtain ⟨⟨_, name⟩, there, rfl⟩ :=
    List.mem_map.mp (locked.mpr ⟨files, filed, .inr isSet⟩)
  have got := Rust.BTreeMap.get_of_mem Rust.BTreeMap.sorted_collect there
  rcases wins name got with ⟨last, isLast, isFound, rfl⟩ | ⟨unset, _⟩
  · rw [settings] at isLast
    cases isLast.eq_of_concat sets
    exact ⟨(spells_of_get got).2, isFound⟩
  · exact absurd isSet unset

theorem of_file (right : LocksRight parsers host paths)
    (listed : path ∈ paths) {files : Figment.Value}
    (filed : fileEnv parsers host = .ok files) {setting : Setting}
    (file : setting ∈ fileSettings parsers host host.vars)
    (none_ : ∀ plain ∈ envSettings parsers host.vars, ¬ plain.Sets path)
    (sets : setting.Sets path) :
    Spells parsers setting.name path ∧
      (setting.value.look (keysOf path)).IsFound := by
  obtain ⟨entry, member, _, set⟩ := exists_of_mem_fileSettings file
  obtain ⟨others, perm⟩ := exists_perm_concat member
  have settings : fileSettings parsers host (others ++ [entry]) =
      fileSettings parsers host others ++ [setting] := by
    rw [fileSettings_concat, set, Option.toList_some]
  obtain ⟨files, filed⟩ := (exists_fileEnv_perm perm).mpr ⟨files, filed⟩
  have isSet : (files.look (keysOf path)).IsSet := by
    rw [(fileEnv_eq_ok.mp filed).2]
    have placed : ((Figment.laid ((fileSettings parsers host others ++
        [setting]).map (·.value))).look (keysOf path)).IsSet :=
      Figment.isSet_laid_concat sets _
    rwa [← settings] at placed
  obtain ⟨locked, wins⟩ := (right _ perm).2 path listed
  obtain ⟨⟨_, name⟩, there, rfl⟩ :=
    List.mem_map.mp (locked.mpr ⟨files, filed, .inl isSet⟩)
  have got := Rust.BTreeMap.get_of_mem Rust.BTreeMap.sorted_collect there
  rcases wins name got with ⟨last, isLast, _⟩ |
    ⟨_, last, isLast, isFound, rfl⟩
  · have listed := (perm.filterMap (envSetting parsers)).mem_iff.mp isLast.mem
    exact absurd isLast.isSet (none_ last listed)
  · change IsLastSet _ _ (fileSettings parsers host (others ++ [entry])) _
      at isLast
    rw [settings] at isLast
    cases isLast.eq_of_concat sets
    exact ⟨(spells_of_get got).2, isFound⟩

theorem oneSpelling (right : LocksRight parsers host paths) :
    OneSpelling parsers host paths where
  names _ oneListed _ otherListed _ := right.names oneListed otherListed
  set path listed entry member spelled := by
    have pinned := ((right host.vars (List.Perm.refl _)).2 path
      listed).1.mp (mem_keys_collectOverrides.mpr ⟨entry, member, spelled⟩)
    obtain ⟨files, filed, _⟩ := id pinned
    exact ⟨⟨files, filed⟩, exists_uppermost_of_pinned pinned⟩
  uppermost files filed path listed setting := by
    rintro ⟨plain | ⟨file, none_⟩, sets⟩
    · exact right.of_plain listed filed plain sets
    · exact right.of_file listed filed file none_ sets

end LocksRight

end Proof

/-- The locks of some config paths are right, in whatever order the variables
are listed, exactly where one name is spelled for each path and what decides
at a config path is spelled for it. -/
theorem locksRight_iff (host : Host) (paths : List String) :
    LocksRight parsers host paths ↔ OneSpelling parsers host paths := by
  constructor
  · exact LocksRight.oneSpelling
  · intro oneSpelling vars perm
    refine ⟨oneSpelling.collectOverrides_eq perm, fun path listed => ?_⟩
    exact (oneSpelling.perm perm).locks listed

end Locking

/-- The plain variable wins over the file of the same path, and the one that
is listed last is named. -/
theorem file_after_plain_not_right :
    ¬ LocksRight parsers (hostOf [("SHARERR_DATA_DIR", "/from-env"),
      ("SHARERR_DATA_DIR_FILE", "/run/secrets/dir")]) ["data_dir"] := by
  intro right
  have plain : envKeys parsers "SHARERR_DATA_DIR" = some ["data_dir"] := by
    decide
  have file : envKeys parsers "SHARERR_DATA_DIR_FILE" = none := by decide
  have path : keysOf "data_dir" = ["data_dir"] := by decide
  have spelled : Spells parsers "SHARERR_DATA_DIR_FILE" "data_dir" :=
    overriddenPath_eq_some.mp (by decide)
  have named : Rust.BTreeMap.get (collectOverrides parsers
      ([("SHARERR_DATA_DIR", "/from-env")] ++
        [("SHARERR_DATA_DIR_FILE", "/run/secrets/dir")])) "data_dir" =
      some "SHARERR_DATA_DIR_FILE" :=
    get_collectOverrides_concat spelled
  have wins := ((right _ (List.Perm.refl _)).2 "data_dir"
    (List.mem_singleton_self _)).2 _ named
  rcases wins with ⟨setting, last, _, named⟩ | ⟨unset, _⟩
  · obtain ⟨entry, listed, same, set⟩ := exists_of_mem_envSettings last.mem
    rcases List.mem_pair.mp listed with rfl | rfl
    · exact absurd (same.trans named) (by decide)
    · rw [envSetting, file] at set
      cases set
  · refine unset ?_
    rw [path]
    change ((env parsers [("SHARERR_DATA_DIR", "/from-env"),
      ("SHARERR_DATA_DIR_FILE", "/run/secrets/dir")]).look _).IsSet
    rw [env, List.foldl_cons, List.foldl_cons, List.foldl_nil, mergeVar,
      mergeVar, plain, file]
    rintro _ ⟨⟩

end Startup

end Sharerr
