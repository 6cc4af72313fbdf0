import Sharerr.Items.Model

/-!
# Tags

The tag that shares an entity with everyone, and the `<tag>-<friend>` tags
that share it with one friend each.
-/

namespace Sharerr

namespace Arr

structure Tag where
  id : Int
  label : String
deriving DecidableEq, Repr

/-- Errors of a walk. -/
inductive ArrError where
  | tagNotFound (service : MediaSource) (label : String)
      (available : List String)
  | notAnApp (service : MediaSource)
  /-- A request that failed, or an answer that did not parse. -/
  | request (detail : String)
deriving DecidableEq, Repr

def findTag (kind : MediaSource) (tags : List Tag) (label : String) :
    Except ArrError Int :=
  match tags.find? fun tag => Rust.eqIgnoreAsciiCase tag.label label with
  | some tag => .ok tag.id
  | none => .error (.tagNotFound kind label (tags.map (·.label)))

/-- The friend a label names under the configured tag. -/
def friendOf (tagLabel label : String) : Option String :=
  (Rust.stripPrefix (Rust.toAsciiLowercase tagLabel ++ "-")
    (Rust.toAsciiLowercase label)).filter (· ≠ "")

/-- The tags that name friends, with whom they name. -/
def friendTags (tags : List Tag) (tagLabel : String) : List (Int × String) :=
  tags.filterMap fun tag =>
    (friendOf tagLabel tag.label).map fun friend => (tag.id, friend)

/-- The friends named by the tags an entity carries. -/
def friendsNamed (friends : List (Int × String)) (entityTags : List Int) :
    List String :=
  (friends.filter fun friend => entityTags.contains friend.1).map (·.2)

end Arr

end Sharerr
