import Mathlib.Data.List.Lex
import Mathlib.Data.String.Basic
import Sharerr.Scan.Titles

/-!
# Scanning a directory

The file system is what it holds, together with the operations on it that
fail.  An operation that does not fail answers with what is there; one on
something that is no longer there fails with `NotFound`.
-/

namespace Sharerr

namespace Scan

/-- An error other than `NotFound`. -/
inductive Fault where
  | permissionDenied
  | other (detail : String)
deriving DecidableEq, Repr

inductive ErrorKind where
  | notFound
  | fault (fault : Fault)
deriving DecidableEq, Repr

inductive Node where
  | file (size : Nat)
  | dir
  | other
deriving DecidableEq, Repr

inductive Entry where
  | node (node : Node)
  | symlink
deriving DecidableEq, Repr

/-- One step through a listing: a name, or an error with the names that are
lost to it. -/
inductive Yield where
  | name (name : String)
  | error (error : ErrorKind) (lost : List String)
deriving DecidableEq, Repr

def Yield.names : Yield → List String
  | .name held => [held]
  | .error _ lost => lost

structure Disk where
  /-- How the listing of a directory goes. -/
  listing : String → Option (List Yield)
  openFault : String → Option Fault
  /-- What is at a path. -/
  entry : String → Option Entry
  entryFault : String → Option Fault
  /-- What a path leads to, with links followed. -/
  target : String → Option Node
  targetFault : String → Option Fault
  /-- The look into the root before the walk opens it again. -/
  probe : Except ErrorKind (List Yield)

/-- The answer of an operation, from what there is to answer with. -/
def answer {α : Type} (fault : Option Fault) (there : Option α) :
    Except ErrorKind α :=
  match fault, there with
  | some fault, _ => .error (.fault fault)
  | none, none => .error .notFound
  | none, some value => .ok value

namespace Disk

def held (disk : Disk) (dir : String) : List String :=
  ((disk.listing dir).getD []).flatMap Yield.names

def readDir (disk : Disk) (dir : String) : Except ErrorKind (List Yield) :=
  answer (disk.openFault dir) (disk.listing dir)

/-- `DirEntry::metadata`, which does not follow links. -/
def lstat (disk : Disk) (path : String) : Except ErrorKind Entry :=
  answer (disk.entryFault path) (disk.entry path)

/-- `fs::metadata`. -/
def stat (disk : Disk) (path : String) : Except ErrorKind Node :=
  answer (disk.targetFault path) (disk.target path)

end Disk

def maxDepth : Nat := 16

structure ScanOutcome where
  items : List Discovered
  /-- Media files whose names carry nothing to advertise. -/
  skipped : Nat
  /-- Corners of the tree that could not be listed. -/
  incomplete : Nat
deriving DecidableEq, Repr

namespace ScanOutcome

def empty : ScanOutcome := ⟨[], 0, 0⟩

def cut (outcome : ScanOutcome) : ScanOutcome :=
  { outcome with incomplete := outcome.incomplete + 1 }

end ScanOutcome

inductive ScanError where
  | notAbsolute (root : String)
  | missing (root : String)
  | notADirectory (root : String)
  | empty (root : String)
  | unreadable (path : String) (source : ErrorKind)
deriving DecidableEq, Repr

def hidden (name : String) : Bool := name.toList.head? = some '.'

/-- What the walk makes of an entry once it has looked at it. -/
inductive Met where
  | failed
  | passedOver
  | dir
  | file (size : Nat)
deriving DecidableEq, Repr

def meet (disk : Disk) (path : String) : Met :=
  match disk.lstat path with
  -- deleted between listing and stat
  | .error .notFound => .passedOver
  | .error (.fault _) => .failed
  | .ok .symlink =>
    match disk.stat path with
    | .ok .dir => .passedOver
    | .ok (.file size) => .file size
    | .ok .other => .passedOver
    -- a broken symlink
    | .error _ => .passedOver
  | .ok (.node .dir) => .dir
  | .ok (.node (.file size)) => .file size
  | .ok (.node .other) => .passedOver

section Walk

variable (pathId : String → Int) (disk : Disk) (library : LibraryConfig)

def discovered (path : String) (size : Nat) (spec : MediaSpec) :
    Discovered where
  source := .directory
  sourceId := pathId library.path
  fileId := pathId path
  spec := spec
  arrPath := path
  size := size
  ids := ⟨none, none, none, none, none, none, none, none⟩
  sceneName := none
  originalPath := none
  media := none
  scene := none

def meetFile (path : String) (size : Nat) (outcome : ScanOutcome) :
    ScanOutcome :=
  if !hasMediaExtension path library.kind then outcome
  else
    match specFor library.path path library.kind with
    | some spec => { outcome with
        items := outcome.items ++ [discovered pathId library path size spec] }
    | none => { outcome with skipped := outcome.skipped + 1 }

/-- One step through the listing of `dir`; `descend` walks a directory below
it. -/
def walkEntry
    (descend : String → ScanOutcome → Except ScanError ScanOutcome)
    (dir : String) (outcome : ScanOutcome) :
    Yield → Except ScanError ScanOutcome
  | .error .. => .ok outcome.cut
  | .name name =>
    let path := Rust.Path.join dir name
    if hidden name then .ok outcome
    else
      match meet disk path with
      | .failed => .ok outcome.cut
      | .passedOver => .ok outcome
      | .dir => descend path outcome
      | .file size => .ok (meetFile pathId library path size outcome)

/-- The walk of a directory, with the levels left to go down.  Only the root
itself must be readable. -/
def walk : Nat → String → ScanOutcome → Except ScanError ScanOutcome
  | 0, _, outcome => .ok outcome.cut
  | left + 1, dir, outcome =>
    match disk.readDir dir with
    | .error error =>
      if left < maxDepth then .ok outcome.cut
      else .error (.unreadable dir error)
    | .ok yields =>
      yields.foldlM (walkEntry pathId disk library (walk left) dir) outcome

/-- `Path`'s order, component by component, on paths below one root. -/
def pathLe (left right : String) : Bool :=
  let names := fun text : String => Rust.splitSlashes text.toList []
  names left ≤ names right

def scan : Except ScanError ScanOutcome :=
  let root := library.path
  if root.toList.head? ≠ some '/' then .error (.notAbsolute root)
  else
    match disk.stat root with
    | .error .notFound => .error (.missing root)
    | .error (.fault fault) => .error (.unreadable root (.fault fault))
    | .ok node =>
      if node ≠ .dir then .error (.notADirectory root)
      else
        match disk.probe with
        | .error error => .error (.unreadable root error)
        | .ok [] => .error (.empty root)
        | .ok (_ :: _) => do
            let outcome ← walk pathId disk library (maxDepth + 1) root .empty
            pure { outcome with
              items := outcome.items.mergeSort fun left right =>
                pathLe left.arrPath right.arrPath }

end Walk

/-- The first two roots of which one holds the other. -/
def overlappingRoots : List LibraryConfig → Option (String × String)
  | [] => none
  | a :: libraries =>
    match libraries.find? fun b =>
      Rust.Path.startsWith a.path b.path ||
        Rust.Path.startsWith b.path a.path with
    | some b => some (a.path, b.path)
    | none => overlappingRoots libraries

/-- Why no `[[library]]` was scanned: a file below two roots would be shared
under whichever kind came last. -/
inductive ScanAllError where
  | overlap (a b : String)
  | library (error : ScanError)
deriving DecidableEq, Repr

def ScanOutcome.merge (merged outcome : ScanOutcome) : ScanOutcome where
  items := merged.items ++ outcome.items
  skipped := merged.skipped + outcome.skipped
  incomplete := merged.incomplete + outcome.incomplete

/-- Every entry in turn, each on the disk as its scan finds it, or none. -/
def scanAll (pathId : String → Int) (disk : LibraryConfig → Disk)
    (libraries : List LibraryConfig) : Except ScanAllError ScanOutcome :=
  match overlappingRoots libraries with
  | some (a, b) => .error (.overlap a b)
  | none =>
    libraries.foldlM (fun merged library =>
      match scan pathId (disk library) library with
      | .error error => .error (.library error)
      | .ok outcome => .ok (merged.merge outcome)) .empty

end Scan

end Sharerr
