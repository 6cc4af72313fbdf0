import Mathlib.Data.List.Basic

/-!
# Conditions with placeholders

The `WHERE` conditions of statements over texts.  Their `?`s carry no names:
each takes the next of the bound values, whatever the truth of the parts
around it, so what a condition selects depends on the order of the binds.
-/

namespace Sqlite

inductive Condition (Column : Type) where
  /-- `column = ?` -/
  | equals (column : Column)
  /-- `column IS NOT NULL` -/
  | notNull (column : Column)
  /-- `column IN (?, …)` -/
  | oneOf (column : Column) (slots : Nat)
  | both (left right : Condition Column)
  | either (left right : Condition Column)
deriving Repr

namespace Condition

variable {Column : Type}

/-- How many values a condition takes. -/
def slots : Condition Column → Nat
  | equals _ => 1
  | notNull _ => 0
  | oneOf _ slots => slots
  | both left right => left.slots + right.slots
  | either left right => left.slots + right.slots

/-- Whether a row is selected; a comparison with NULL selects nothing. -/
def holds (row : Column → Option String) :
    Condition Column → List String → Bool
  | equals column, binds => binds.head?.any fun bind => row column = some bind
  | notNull column, _ => (row column).isSome
  | oneOf column slots, binds =>
    (binds.take slots).any fun bind => row column = some bind
  | both left right, binds =>
    left.holds row (binds.take left.slots) &&
      right.holds row (binds.drop left.slots)
  | either left right, binds =>
    left.holds row (binds.take left.slots) ||
      right.holds row (binds.drop left.slots)

variable {row : Column → Option String} {left right : Condition Column}
  {first second : List String}

theorem holds_both (filled : first.length = left.slots) :
    (both left right).holds row (first ++ second) =
      (left.holds row first && right.holds row second) := by
  rw [holds, ← filled, List.take_left, List.drop_left]

theorem holds_either (filled : first.length = left.slots) :
    (either left right).holds row (first ++ second) =
      (left.holds row first || right.holds row second) := by
  rw [holds, ← filled, List.take_left, List.drop_left]

theorem holds_oneOf (column : Column) (binds : List String) :
    (oneOf column binds.length).holds row binds =
      binds.any fun bind => row column = some bind := by
  rw [holds, List.take_length]

end Condition

end Sqlite
