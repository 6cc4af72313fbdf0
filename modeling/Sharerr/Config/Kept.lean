import Sharerr.Config.File

/-!
# What a write of the config keeps

A write that moved the config aside and then fails leaves no config.  And there
is one name for what is moved aside, so what was there before is gone.
-/

namespace Sharerr

namespace Config

open Rust (Path.fileName)

/-- Some file has these bytes. -/
def Held (folder : Folder) (document : ByteArray) : Prop :=
  ∃ name, folder name = some document

section

variable {file : ConfigFile} {text : String} {faults : Faults}
  {folder : Folder} {path name : String}

theorem rename_source (folder : Folder) (source target : String) :
    rename folder source target source = none := by
  simp [rename]

variable {source target : String} {result : Except FileError Unit × Folder}

theorem rename_target (other : target ≠ source) (folder : Folder) :
    rename folder source target target = folder source := by
  simp [rename, other]

theorem rename_other (notSource : name ≠ source) (notTarget : name ≠ target)
    (folder : Folder) :
    rename folder source target name = folder name := by
  simp [rename, notSource, notTarget]

theorem accepted_eq_ok {path : Option String} {pathText : String}
    (fine : accepted path = .ok pathText) : path = some pathText := by
  cases path with
  | none => cases fine
  | some path =>
    rw [accepted] at fine
    split at fine
    · cases fine
    · cases fine
      rfl

theorem ConfigFile.prepared_eq_ok
    (ready : file.prepared faults = .ok (path, name)) :
    file.path = some path ∧ Path.fileName path = some name := by
  rw [ConfigFile.prepared] at ready
  cases fine : accepted file.path with
  | error err =>
    rw [fine] at ready
    cases ready
  | ok pathText =>
    rw [fine] at ready
    simp only [bind, Except.bind] at ready
    split at ready
    · cases ready
    · split at ready
      case h_1 found there =>
        cases ready
        exact ⟨accepted_eq_ok fine, there⟩
      case h_2 =>
        split at ready
        · cases ready
        · cases ready

theorem ConfigFile.content_of_prepared
    (ready : file.prepared faults = .ok (path, name)) :
    file.content folder = folder name := by
  obtain ⟨atPath, named⟩ := ConfigFile.prepared_eq_ok ready
  rw [ConfigFile.content, atPath, Option.bind_some, named, Option.bind_some]

/-- The directory before anything is written. -/
def ConfigFile.aside (file : ConfigFile) (folder : Folder) (name : String) :
    Folder :=
  if file.moves folder name then rename folder name (invalidPath name)
  else folder

/-- The directory with the temporary file in it. -/
def ConfigFile.written (file : ConfigFile) (text : String) (folder : Folder)
    (name : String) : Folder :=
  Function.update (file.aside folder name) (tmpPath name) (some text.toUTF8)

/-- The ways a call goes once the directory is there. -/
inductive Goes (file : ConfigFile) (text : String) (faults : Faults)
    (folder : Folder) (path name : String) :
    Except FileError Unit × Folder → Prop where
  | notMoved (moves : file.moves folder name = true)
      (fails : faults.moveAside = true) :
      Goes file text faults folder path name
        (.error (.movingAside path), folder)
  | notWritten (moved : file.moves folder name = true →
        faults.moveAside = false)
      {left : Option ByteArray} (fails : faults.writeTmp = some left) :
      Goes file text faults folder path name
        (.error (.writing (tmpPath name)),
          Function.update (file.aside folder name) (tmpPath name) left)
  | notReplaced (moved : file.moves folder name = true →
        faults.moveAside = false)
      (written : faults.writeTmp = none) (fails : faults.rename = true) :
      Goes file text faults folder path name
        (.error (.replacing path), file.written text folder name)
  | done (moved : file.moves folder name = true → faults.moveAside = false)
      (written : faults.writeTmp = none) (replaced : faults.rename = false) :
      Goes file text faults folder path name
        (.ok (), rename (file.written text folder name) (tmpPath name) name)

theorem ConfigFile.writeValidated_goes
    (ready : file.prepared faults = .ok (path, name)) (text : String)
    (folder : Folder) :
    Goes file text faults folder path name
      (file.writeValidated text faults folder) := by
  rw [ConfigFile.writeValidated, ready]
  by_cases stopped : file.moves folder name ∧ faults.moveAside
  · simp only [if_pos stopped]
    exact .notMoved stopped.1 stopped.2
  · simp only [if_neg stopped]
    have moved : file.moves folder name = true → faults.moveAside = false := by
      intro moves
      by_contra fails
      exact stopped ⟨moves, by simpa using fails⟩
    cases left : faults.writeTmp with
    | some bytes => exact .notWritten moved left
    | none =>
      cases failed : faults.rename with
      | true => exact .notReplaced moved left failed
      | false => exact .done moved left failed

theorem ConfigFile.aside_name (file : ConfigFile) (folder : Folder)
    (name : String) :
    file.aside folder name name =
      if file.moves folder name then none else folder name := by
  rw [ConfigFile.aside]
  by_cases moves : file.moves folder name
  · rw [if_pos moves, if_pos moves, rename_source]
  · rw [if_neg moves, if_neg moves]

/-- A call that fails with something under the temporary name leaves the config
exactly when it did not move it aside. -/
theorem ConfigFile.aside_kept_iff (file : ConfigFile) (folder : Folder)
    (name : String) (left : Option ByteArray) :
    Function.update (file.aside folder name) (tmpPath name) left name =
        folder name ↔
      ¬ file.moves folder name = true := by
  rw [Function.update_of_ne (tmpPath_ne name).symm, ConfigFile.aside_name]
  by_cases moves : file.moves folder name
  · have there : (folder name).isSome = true := by
      rw [ConfigFile.moves, Bool.and_eq_true] at moves
      exact moves.2
    rw [if_pos moves]
    constructor
    · intro gone
      rw [← gone] at there
      cases there
    · intro notMoved
      exact absurd moves notMoved
  · simp [moves]

/-- The names at which a call puts something else than it found there, and does
not put what it found under another name. -/
def ConfigFile.overwritten (file : ConfigFile) (folder : Folder)
    (name : String) : List String :=
  [tmpPath name, if file.moves folder name then invalidPath name else name]

/-- After a call that went through, what is held is the text and what was under
the names that are not overwritten. -/
theorem held_done_iff (file : ConfigFile) (text : String) (folder : Folder)
    (name : String) (document : ByteArray) :
    Held (rename (file.written text folder name) (tmpPath name) name)
        document ↔
      document = text.toUTF8 ∨
        ∃ other, other ∉ file.overwritten folder name ∧
          folder other = some document := by
  have after : ∀ other, other ≠ tmpPath name → other ≠ name →
      rename (file.written text folder name) (tmpPath name) name other =
        file.aside folder name other := by
    intro other notTmp notName
    rw [rename_other notTmp notName, ConfigFile.written,
      Function.update_of_ne notTmp]
  have atName : rename (file.written text folder name) (tmpPath name) name
      name = some text.toUTF8 := by
    rw [rename_target (tmpPath_ne name).symm, ConfigFile.written,
      Function.update_self]
  constructor
  · intro held
    obtain ⟨other, there⟩ := held
    by_cases isName : other = name
    · left
      subst isName
      rw [atName] at there
      exact (Option.some.inj there).symm
    · right
      have notTmp : other ≠ tmpPath name := by
        intro isTmp
        rw [isTmp, rename_source] at there
        cases there
      rw [after other notTmp isName, ConfigFile.aside] at there
      by_cases moves : file.moves folder name
      · rw [if_pos moves] at there
        by_cases isAside : other = invalidPath name
        · rw [isAside, rename_target (invalidPath_ne name)] at there
          refine ⟨name, ?_, there⟩
          simp [ConfigFile.overwritten, moves, (tmpPath_ne name).symm,
            (invalidPath_ne name).symm]
        · rw [rename_other isName isAside] at there
          refine ⟨other, ?_, there⟩
          simp [ConfigFile.overwritten, moves, notTmp, isAside]
      · rw [if_neg moves] at there
        exact ⟨other, by simp [ConfigFile.overwritten, moves, notTmp, isName],
          there⟩
  · intro kept
    rcases kept with isText | ⟨other, apart, there⟩
    · exact ⟨name, isText ▸ atName⟩
    · by_cases moves : file.moves folder name
      · simp only [ConfigFile.overwritten, if_pos moves, List.mem_cons,
          List.not_mem_nil, or_false, not_or] at apart
        by_cases isName : other = name
        · refine ⟨invalidPath name, ?_⟩
          rw [after _ (tmpPath_ne_invalidPath name).symm (invalidPath_ne name),
            ConfigFile.aside, if_pos moves,
            rename_target (invalidPath_ne name), ← isName, there]
        · refine ⟨other, ?_⟩
          rw [after other apart.1 isName, ConfigFile.aside, if_pos moves,
            rename_other isName apart.2, there]
      · simp only [ConfigFile.overwritten, if_neg moves, List.mem_cons,
          List.not_mem_nil, or_false, not_or] at apart
        refine ⟨other, ?_⟩
        rw [after other apart.1 apart.2, ConfigFile.aside, if_neg moves, there]

/-- `wrote` are the documents an operator wrote. -/
structure Kept (wrote : ByteArray → Prop) (write : Write) : Prop where
  failed : ∀ err, write.result.1 = .error err →
    write.handle.file.content write.result.2 =
      write.handle.file.content write.folder
  succeeded : write.result.1 = .ok () → ∀ document, wrote document →
    write.handle.asked ≠ some document → Held write.folder document →
      Held write.result.2 document

/-- A write that does not stop halfway, and overwrites no text worth keeping. -/
structure Sparing (wrote : ByteArray → Prop) (write : Write) : Prop where
  /-- Once the config is moved aside, nothing fails. -/
  notLate : ∀ path name,
    write.handle.file.prepared write.faults = .ok (path, name) →
      write.handle.file.moves write.folder name = true →
        write.faults.moveAside = false →
          write.faults.writeTmp = none ∧ write.faults.rename = false
  /-- Where a call goes through, what it overwrites is the text or under another
  name, too. -/
  elsewhere : ∀ path name,
    write.handle.file.prepared write.faults = .ok (path, name) →
      (write.handle.file.moves write.folder name = true →
        write.faults.moveAside = false) →
      write.faults.writeTmp = none → write.faults.rename = false →
        ∀ document, wrote document → write.handle.asked ≠ some document →
          ∀ taken ∈ write.handle.file.overwritten write.folder name,
            write.folder taken = some document →
              document = write.text.toUTF8 ∨
                ∃ other,
                  other ∉ write.handle.file.overwritten write.folder name ∧
                    write.folder other = some document

theorem Goes.late (goes : Goes file text faults folder path name result)
    (moved : faults.moveAside = false)
    (fails : ¬ (faults.writeTmp = none ∧ faults.rename = false)) :
    ∃ err left, result =
      (.error err, Function.update (file.aside folder name) (tmpPath name)
        left) := by
  cases goes with
  | notMoved _ notMoved =>
    rw [moved] at notMoved
    cases notMoved
  | notWritten => exact ⟨_, _, rfl⟩
  | notReplaced => exact ⟨_, _, rfl⟩
  | done _ written replaced => exact absurd ⟨written, replaced⟩ fails

theorem Goes.through (goes : Goes file text faults folder path name result)
    (moved : file.moves folder name = true → faults.moveAside = false)
    (written : faults.writeTmp = none) (replaced : faults.rename = false) :
    result =
      (.ok (), rename (file.written text folder name) (tmpPath name) name) := by
  cases goes with
  | notMoved moves notMoved =>
    rw [moved moves] at notMoved
    cases notMoved
  | notWritten _ fails =>
    rw [written] at fails
    cases fails
  | notReplaced _ _ fails =>
    rw [replaced] at fails
    cases fails
  | done => rfl

variable {write : Write} {wrote : ByteArray → Prop}

theorem Kept.of_not_prepared {err : FileError}
    (ready : write.handle.file.prepared write.faults = .error err) :
    Kept wrote write := by
  have result : write.result = (.error err, write.folder) := by
    rw [Write.result, ConfigFile.writeValidated, ready]
  constructor
  · intro _ _
    rw [result]
  · intro went
    rw [result] at went
    cases went

theorem Kept.sparing (kept : Kept wrote write) : Sparing wrote write where
  notLate := by
    intro path name ready moves moved
    by_contra fails
    obtain ⟨err, left, result⟩ :=
      (ConfigFile.writeValidated_goes ready write.text write.folder).late moved
        fails
    change write.result = _ at result
    have same := kept.failed err (by rw [result])
    rw [ConfigFile.content_of_prepared ready,
      ConfigFile.content_of_prepared ready, result] at same
    exact (ConfigFile.aside_kept_iff _ _ _ left).mp same moves
  elsewhere := by
    intro path name ready moved written replaced document own unasked taken
      _ there
    have result :=
      (ConfigFile.writeValidated_goes ready write.text write.folder).through
        moved written replaced
    change write.result = _ at result
    have held := kept.succeeded (by rw [result]) document own unasked
      ⟨taken, there⟩
    rw [result] at held
    exact (held_done_iff _ _ _ _ document).mp held

theorem Sparing.kept (sparing : Sparing wrote write) : Kept wrote write := by
  cases ready : write.handle.file.prepared write.faults with
  | error err => exact Kept.of_not_prepared ready
  | ok pair =>
    obtain ⟨path, name⟩ := pair
    have goes :=
      ConfigFile.writeValidated_goes ready write.text write.folder
    change Goes _ _ _ _ _ _ write.result at goes
    have late := sparing.notLate path name ready
    have elsewhere := sparing.elsewhere path name ready
    constructor
    · intro err failed
      rw [ConfigFile.content_of_prepared ready,
        ConfigFile.content_of_prepared ready]
      generalize write.result = result at goes failed ⊢
      cases goes with
      | notMoved => rfl
      | notWritten moved fails =>
        apply (ConfigFile.aside_kept_iff _ _ _ _).mpr
        intro moves
        rw [(late moves (moved moves)).1] at fails
        cases fails
      | notReplaced moved _ fails =>
        apply (ConfigFile.aside_kept_iff _ _ _ _).mpr
        intro moves
        rw [(late moves (moved moves)).2] at fails
        cases fails
      | done => cases failed
    · intro went document own unasked held
      generalize write.result = result at goes went ⊢
      cases goes with
      | notMoved => cases went
      | notWritten => cases went
      | notReplaced => cases went
      | done moved written replaced =>
        apply (held_done_iff _ _ _ _ document).mpr
        obtain ⟨taken, there⟩ := held
        by_cases lost :
          taken ∈ write.handle.file.overwritten write.folder name
        · exact elsewhere moved written replaced document own unasked taken
            lost there
        · exact Or.inr ⟨taken, lost, there⟩

end

section

variable (parse : String → Option Document) (path : Option String)

/-- In every run from a directory each call keeps the config if it fails, and
the operator's documents if it does not, exactly when each is sparing. -/
theorem config_kept_iff_sparing (wrote : ByteArray → Prop) (folder : Folder)
    (acts : List Act) :
    (∀ write ∈ writes parse path ⟨folder, []⟩ acts, Kept wrote write) ↔
      ∀ write ∈ writes parse path ⟨folder, []⟩ acts, Sparing wrote write := by
  constructor
  · intro kept write member
    exact (kept write member).sparing
  · intro sparing write member
    exact (sparing write member).kept

end

def withTypo : Folder
  | "sharerr.toml" => some "taag = \"home\"".toUTF8
  | "sharerr.toml.invalid" => some "tag = home".toUTF8
  | _ => none

def noFaults : Faults := ⟨false, false, none, false⟩

/-- Nothing can be created in the directory. -/
def diskFull : Faults := ⟨false, false, some none, false⟩

/-- The calls of one replacement. -/
def replacement (faults : Faults) : List Write :=
  writes (fun _ => some []) (some "sharerr.toml") ⟨withTypo, []⟩
    [.replacing, .write 0 "tag = \"home\"" faults]

/-- A replacement on a full disk leaves no config, and one that goes through
leaves nothing of what was moved aside before. -/
theorem replacement_loses :
    (¬ ∀ write ∈ replacement diskFull, Kept (Held withTypo) write) ∧
      ¬ ∀ write ∈ replacement noFaults, Kept (Held withTypo) write := by
  constructor
  · intro kept
    have same := (kept _ List.mem_cons_self).failed
      (.writing "sharerr.toml.tmp") (by decide +kernel)
    revert same
    decide +kernel
  · intro kept
    have old : Held withTypo "tag = home".toUTF8 :=
      ⟨"sharerr.toml.invalid", rfl⟩
    have held := (kept _ List.mem_cons_self).succeeded (by decide +kernel)
      _ old (by decide +kernel) old
    have ready : (ConfigFile.replacing (some "sharerr.toml")).prepared
        noFaults = .ok ("sharerr.toml", "sharerr.toml") := by decide +kernel
    have result := (ConfigFile.writeValidated_goes ready "tag = \"home\""
      withTypo).through (fun _ => rfl) rfl rfl
    change Held ((ConfigFile.replacing (some "sharerr.toml")).writeValidated
      "tag = \"home\"" noFaults withTypo).2 _ at held
    rw [result] at held
    rcases (held_done_iff _ _ _ _ _).mp held with isText | ⟨other, apart, there⟩
    · revert isText
      decide +kernel
    · rw [withTypo.eq_def] at there
      split at there
      · revert there
        decide +kernel
      · apply apart
        decide +kernel
      · cases there

end Config

end Sharerr
