import Sharerr.Torrent.InfoHash

/-!
# What is read from an info dictionary

The dictionary stays as it was decoded.  Its fields are looked up when they are
asked for; one that is missing or of another type reads as nothing.
-/

namespace Sharerr

namespace Bencode

namespace Value

def asInt : Value → Option Int
  | .int number => some number
  | _ => none

def asDict : Value → Option (List (Bytes × Value))
  | .dict entries => some entries
  | _ => none

/-- `Value::string`. -/
def string (text : String) : Value := .bytes (Vault.toUtf8 text)

end Value

end Bencode

namespace Metainfo

open Bencode (Value writeDict)
open Rust (BTreeMap.get)

/-- `i64::checked_add`. -/
def checkedAdd (left right : Int) : Option Int :=
  if Rust.i64Min ≤ left + right ∧ left + right ≤ Rust.i64Max then
    some (left + right)
  else none

namespace Torrent

variable (torrent : Torrent)

def infoField (key : String) : Option Value :=
  BTreeMap.get torrent.info (Vault.toUtf8 key)

/-- The first twenty bytes of the SHA-256 of a v2 info dictionary. -/
def infoHashV2 (sha256 : Bytes → Bytes) : Option String :=
  if (torrent.infoField "meta version").bind Value.asInt = some 2 then
    some (Tracker.hexEncode ((sha256 (writeDict torrent.info)).take 20))
  else none

def name : Option String := (torrent.infoField "name").bind Value.asStr

def fileLength (file : Value) : Option Int :=
  (file.asDict.bind fun entries =>
    BTreeMap.get entries (Vault.toUtf8 "length")).bind Value.asInt

/-- The `length` of a single file, or the sum over the files of several. -/
def length : Option Int :=
  match (torrent.infoField "length").bind Value.asInt with
  | some length => some length
  | none => do
      let files ← (torrent.infoField "files").bind Value.asList
      files.foldlM (fun sum file => do checkedAdd sum (← fileLength file)) 0

/-- A length that is missing or negative reads as zero. -/
def contentLength : Nat :=
  match torrent.length with
  | some length => if 0 ≤ length then length.toNat else 0
  | none => 0

def isSingleFile : Bool := (torrent.infoField "files").isNone

def filePath (file : Value) : Option String := do
  let parts ← (file.asDict.bind fun entries =>
    BTreeMap.get entries (Vault.toUtf8 "path")).bind Value.asList
  let parts ← parts.mapM Value.asStr
  return String.intercalate "/" parts

/-- The files of a multi-file torrent. -/
def filePaths : List String :=
  match (torrent.infoField "files").bind Value.asList with
  | none => []
  | some files => files.filterMap filePath

/-- The piece length, if it is a positive integer. -/
def pieceLength : Option Nat := do
  let length ← (torrent.infoField "piece length").bind Value.asInt
  if 0 < length then some length.toNat else none

/-- The hashes of the pieces, one after the other. -/
def pieces : Option Bytes := (torrent.infoField "pieces").bind Value.asBytes

def isPrivate : Bool :=
  (torrent.infoField "private").bind Value.asInt = some 1

end Torrent

end Metainfo

end Sharerr
