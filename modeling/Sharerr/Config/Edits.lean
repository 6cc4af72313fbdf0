import Sharerr.Rust.IndexMap

/-!
# Edits of a document

A document as `toml_edit` keeps it: tables with a header of their own or with
dotted keys, inline tables, and arrays of tables are different things, though
they say the same.  Comments, spacing and the order of keys are left out.
-/

namespace Sharerr

namespace Config

open Rust (IndexMap)

inductive Value where
  | string (text : String)
  | integer (number : Int)
  /-- The bits of the number. -/
  | float (bits : UInt64)
  | boolean (flag : Bool)
  | datetime (text : String)
  | array (values : List Value)
  | inlineTable (entries : List (String × Value))

inductive Item where
  | value (value : Value)
  | table (entries : List (String × Item))
  | arrayOfTables (tables : List (List (String × Item)))

/-- The root table. -/
abbrev Document := IndexMap Item

inductive Setting where
  | str (text : String)
  | int (number : Int)
  | float (bits : UInt64)
  | bool (flag : Bool)
  | strList (texts : List String)
  /-- Remove the key. -/
  | unset

/-- The value a setting writes. -/
def Setting.value : Setting → Option Value
  | .str text => some (.string text)
  | .int number => some (.integer number)
  | .float bits => some (.float bits)
  | .bool flag => some (.boolean flag)
  | .strList texts => some (.array (texts.map .string))
  | .unset => none

/-- A text split at its dots; `segment` is what was read of the current piece,
last character first. -/
@[simp] def splitDots : List Char → List Char → List String
  | [], segment => [String.ofList segment.reverse]
  | '.' :: rest, segment =>
    String.ofList segment.reverse :: splitDots rest []
  | character :: rest, segment => splitDots rest (character :: segment)

structure Edit where
  path : String
  value : Setting

/-- The keys a path leads through. -/
def Edit.keys (edit : Edit) : List String := splitDots edit.path.toList []

/-- The table a walk goes on in.  A key that is missing, or is not a table,
becomes an empty one. -/
def within (table : IndexMap Item) (key : String) : IndexMap Item :=
  match table.get key with
  | some (.table entries) => entries
  | _ => []

/-- The walk from a table to the last key of a path, where the setting is
written. -/
def applyAt (setting : Setting) : List String → IndexMap Item → IndexMap Item
  | [], table => table
  | [key], table =>
    match setting.value with
    | some value => table.insert key (.value value)
    | none => table.remove key
  | key :: next :: keys, table =>
    table.insert key
      (.table (applyAt setting (next :: keys) (within table key)))

def applyOne (doc : Document) (edit : Edit) : Document :=
  applyAt edit.value edit.keys doc

/-- Edits applied in order. -/
def apply (doc : Document) (edits : List Edit) : Document :=
  edits.foldl applyOne doc

theorem splitDots_ne_nil (text segment : List Char) :
    splitDots text segment ≠ [] := by
  induction text generalizing segment with
  | nil => simp [splitDots]
  | cons character text ih =>
    by_cases dot : character = '.'
    · subst dot
      simp [splitDots]
    · simp only [splitDots]
      exact ih _

theorem Edit.keys_ne_nil (edit : Edit) : edit.keys ≠ [] :=
  splitDots_ne_nil _ _

/-- What is at a path: a value that is no table, or a table of any kind. -/
inductive Seen where
  | leaf (item : Item)
  | table

def Item.entry : Item → String → Option Item
  | .table entries, key => IndexMap.get entries key
  | .value (.inlineTable entries), key =>
    (IndexMap.get entries key).map Item.value
  | _, _ => none

def Item.seen : Item → Seen
  | .table _ => .table
  | .value (.inlineTable _) => .table
  | item => .leaf item

/-- What an item says at a path below it. -/
def Item.lookup (item : Item) : List String → Option Seen
  | [] => some item.seen
  | key :: keys => (item.entry key).bind fun inner => inner.lookup keys

def look (doc : Document) (keys : List String) : Option Seen :=
  (Item.table doc).lookup keys

/-- Whether a path leads through tables that are no inline ones, and to one. -/
def Item.standard : Item → List String → Bool
  | .table _, [] => true
  | .table entries, key :: keys =>
    (IndexMap.get entries key).any fun inner => inner.standard keys
  | _, _ => false

def standard (doc : Document) (keys : List String) : Bool :=
  (Item.table doc).standard keys

end Config

end Sharerr
