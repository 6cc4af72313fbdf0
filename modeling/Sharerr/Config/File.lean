import Mathlib.Data.List.Infix
import Mathlib.Logic.Function.Basic
import Sharerr.Config.Edits
import Sharerr.Scan.Titles

/-!
# The config file

What is written goes under a temporary name first and takes the place of the
config by a rename.  A file that did not load is moved aside before that.  Each
of these steps can fail, and leaves the directory as far as it came.
-/

namespace Rust

namespace Path

/-- `Path::with_extension`, on a file name. -/
def withExtension (name ext : String) : String :=
  (dotted name).1 ++ "." ++ ext

theorem dotted_append {front last : List Char} (named : front ≠ [])
    (plain : '.' ∉ last) :
    dotted (String.ofList (front ++ '.' :: last)) =
      (String.ofList front, some (String.ofList last)) := by
  have back : (String.ofList (front ++ '.' :: last)).toList.reverse =
      last.reverse ++ '.' :: front.reverse := by
    simp
  have after : (last.reverse ++ '.' :: front.reverse).takeWhile (· ≠ '.') =
      last.reverse := by
    rw [List.takeWhile_append_of_pos]
    · simp
    · intro character member
      have other : character ≠ '.' := fun same =>
        plain (List.mem_reverse.mp (same ▸ member))
      simp [other]
  rw [dotted, back, after, List.drop_left]
  cases reversed : front.reverse with
  | nil => exact absurd (List.reverse_eq_nil_iff.mp reversed) named
  | cons character rest =>
    simp [← reversed]

/-- A name keeps nothing of its own extension, so with two more pieces it is
another one. -/
theorem withExtension_ne (name : String) (last : List Char)
    (plain : '.' ∉ last) :
    withExtension name (String.ofList ("toml.".toList ++ last)) ≠ name := by
  intro same
  have named : (dotted name).1.toList ++ ".toml".toList ≠ [] := by simp
  have whole : name = String.ofList
      (((dotted name).1.toList ++ ".toml".toList) ++ '.' :: last) := by
    conv_lhs => rw [← same]
    apply String.toList_injective
    simp [withExtension]
  have stem := congrArg Prod.fst (dotted_append named plain)
  rw [← whole] at stem
  have lengths := congrArg (fun text => text.toList.length) stem
  simp at lengths

end Path

end Rust

namespace Sharerr

namespace Config

open Rust (Path.fileName Path.parent Path.withExtension)

/-- The files of the directory that holds the config, by their names. -/
abbrev Folder := String → Option ByteArray

/-- `std::fs::rename`. -/
def rename (folder : Folder) (source target : String) : Folder :=
  Function.update (Function.update folder target (folder source)) source none

inductive FileError where
  | notUtf8
  | dotDot (path : String)
  | reading (path : String)
  | notToml (path : String)
  | creating (parent : String)
  | movingAside (path : String)
  | writing (tmp : String)
  | replacing (path : String)
deriving DecidableEq, Repr

/-- The guard on a path, which is `none` when it is no UTF-8. -/
def accepted : Option String → Except FileError String
  | none => .error .notUtf8
  | some path =>
    if "..".toList <:+: path.toList then .error (.dotDot path) else .ok path

/-- The step that fails, if one does. -/
structure Faults where
  createDir : Bool
  moveAside : Bool
  /-- What a write that fails leaves under the temporary name. -/
  writeTmp : Option (Option ByteArray)
  rename : Bool

structure ConfigFile where
  path : Option String
  doc : Document
  recovered : Bool

/-- What is not there is empty. -/
def readOrEmpty (path : String) (fails : Bool) (folder : Folder) :
    Except FileError String :=
  if fails then .error (.reading path)
  else
    match (Path.fileName path).bind folder with
    | none => .ok ""
    | some bytes =>
      match String.fromUTF8? bytes with
      | some text => .ok text
      | none => .error (.reading path)

/-- `parse` is the parser of documents. -/
def ConfigFile.open (parse : String → Option Document) (path : Option String)
    (fails : Bool) (folder : Folder) : Except FileError ConfigFile := do
  let pathText ← accepted path
  let text ← readOrEmpty pathText fails folder
  match parse text with
  | some doc => .ok ⟨path, doc, false⟩
  | none => .error (.notToml pathText)

def ConfigFile.replacing (path : Option String) : ConfigFile :=
  ⟨path, [], true⟩

def invalidPath (name : String) : String :=
  Path.withExtension name "toml.invalid"

def tmpPath (name : String) : String := Path.withExtension name "toml.tmp"

/-- Whether the file of that name is moved aside before it is replaced. -/
def ConfigFile.moves (file : ConfigFile) (folder : Folder) (name : String) :
    Bool :=
  file.recovered && (folder name).isSome

/-- The guard and the directory.  The name is the one of the config in it; a
path without one is a directory, which is neither moved nor written. -/
def ConfigFile.prepared (file : ConfigFile) (faults : Faults) :
    Except FileError (String × String) := do
  let path ← accepted file.path
  let parent := (Path.parent path).getD ""
  if parent ≠ "" ∧ faults.createDir then
    .error (.creating parent)
  else
    match Path.fileName path with
    | some name => .ok (path, name)
    | none =>
      if file.recovered ∧ path ≠ "" then .error (.movingAside path)
      else .error (.writing path)

/-- A config that could not be read is moved aside before the new one
replaces it. -/
def ConfigFile.writeValidated (file : ConfigFile) (text : String)
    (faults : Faults) (folder : Folder) : Except FileError Unit × Folder :=
  match file.prepared faults with
  | .error err => (.error err, folder)
  | .ok (path, name) =>
    if file.moves folder name ∧ faults.moveAside then
      (.error (.movingAside path), folder)
    else
      let aside :=
        if file.moves folder name then rename folder name (invalidPath name)
        else folder
      match faults.writeTmp with
      | some left =>
        (.error (.writing (tmpPath name)),
          Function.update aside (tmpPath name) left)
      | none =>
        let written :=
          Function.update aside (tmpPath name) (some text.toUTF8)
        if faults.rename then (.error (.replacing path), written)
        else (.ok (), rename written (tmpPath name) name)

theorem tmpPath_ne (name : String) : tmpPath name ≠ name :=
  Rust.Path.withExtension_ne name "tmp".toList (by decide)

theorem invalidPath_ne (name : String) : invalidPath name ≠ name :=
  Rust.Path.withExtension_ne name "invalid".toList (by decide)

theorem tmpPath_ne_invalidPath (name : String) :
    tmpPath name ≠ invalidPath name := by
  intro same
  have tails := congrArg String.toList same
  simp [tmpPath, invalidPath, Rust.Path.withExtension] at tails

/-- A file with what the config held when it was opened. -/
structure Handle where
  file : ConfigFile
  asked : Option ByteArray

structure State where
  folder : Folder
  handles : List Handle

/-- What happens to the directory: someone writes or removes a file by hand, a
config file is opened or started afresh, or one is written. -/
inductive Act where
  | hand (name : String) (content : Option ByteArray)
  | open (fails : Bool)
  | replacing
  | write (index : Nat) (text : String) (faults : Faults)

/-- The bytes at the path of a file. -/
def ConfigFile.content (file : ConfigFile) (folder : Folder) :
    Option ByteArray :=
  (file.path.bind Path.fileName).bind folder

section

variable (parse : String → Option Document) (path : Option String)

def step (state : State) : Act → State
  | .hand name content =>
    { state with folder := Function.update state.folder name content }
  | .open fails =>
    match ConfigFile.open parse path fails state.folder with
    | .ok file => { state with
        handles := state.handles ++ [⟨file, file.content state.folder⟩] }
    | .error _ => state
  | .replacing => { state with
      handles := state.handles ++ [⟨.replacing path, none⟩] }
  | .write index text faults =>
    match state.handles[index]? with
    | some handle => { state with
        folder := (handle.file.writeValidated text faults state.folder).2 }
    | none => state

/-- A call of `writeValidated` and the directory it comes to. -/
structure Write where
  handle : Handle
  text : String
  faults : Faults
  folder : Folder

def Write.result (write : Write) : Except FileError Unit × Folder :=
  write.handle.file.writeValidated write.text write.faults write.folder

def writeOf (state : State) : Act → Option Write
  | .write index text faults => state.handles[index]?.map fun handle =>
    ⟨handle, text, faults, state.folder⟩
  | _ => none

/-- The calls of a run. -/
def writes : State → List Act → List Write
  | _, [] => []
  | state, act :: acts =>
    (writeOf state act).toList ++ writes (step parse path state act) acts

end

end Config

end Sharerr
