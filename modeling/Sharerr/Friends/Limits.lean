import Sharerr.Friends.Store

/-!
# What narrows a friend's feed

The caps of a friend, and the name that `<tag>-<friend>` tags call it: the
slug of its label.
-/

namespace Sharerr

namespace Friends

def isAsciiAlphanumeric (character : Char) : Bool :=
  ('a' ≤ character && character ≤ 'z') ||
    ('A' ≤ character && character ≤ 'Z') ||
    ('0' ≤ character && character ≤ '9')

def toAsciiLower (character : Char) : Char :=
  if 'A' ≤ character ∧ character ≤ 'Z' then Char.ofNat (character.toNat + 32)
  else character

/-- One character more of a slug. -/
def slugStep (slug : List Char) (character : Char) : List Char :=
  if isAsciiAlphanumeric character then slug ++ [toAsciiLower character]
  else if slug ≠ [] ∧ slug.getLast? ≠ some '-' then slug ++ ['-']
  else slug

def friendSlug (label : String) : String :=
  String.ofList
    ((label.toList.foldl slugStep []).reverse.dropWhile (· = '-')).reverse

example : friendSlug "  ~Alex__K~ " = "alex-k" := by decide +kernel

/-- `Peer::limits`. -/
def Friend.limits (friend : Friend) : PeerLimits where
  maxSizeBytes := friend.maxSizeBytes
  maxHeight := friend.maxHeight
  friend := (some (friendSlug friend.label)).filter (· ≠ "")

end Friends

end Sharerr
