import Sharerr.Items.Model

/-!
# The magnets of the feed

The feeds give a magnet for an item where magnet links are on and the item is
not recorded as private.
-/

namespace Sharerr

namespace Feed

def hexDigits : List Char :=
  ['0', '1', '2', '3', '4', '5', '6', '7', '8', '9', 'A', 'B', 'C', 'D', 'E',
    'F']

/-- One byte of a form-encoded text. -/
def encodeByte (byte : UInt8) : List Char :=
  let character := Char.ofNat byte.toNat
  if byte < 128 && (character.isAlphanum || character ∈ ['*', '-', '.', '_'])
  then [character]
  else if character = ' ' then ['+']
  else
    ['%', hexDigits.getD (byte.toNat / 16) '0',
      hexDigits.getD (byte.toNat % 16) '0']

/-- `encode_component`. -/
def encodeComponent (value : String) : String :=
  String.ofList (value.toUTF8.data.toList.flatMap encodeByte)

def magnetUri (infoHash title : String) (size : Nat)
    (encodedAnnounces : List String) : String :=
  let exactLength := if 0 < size then "&xl=" ++ toString size else ""
  "magnet:?xt=urn:btih:" ++ infoHash ++ "&dn=" ++ encodeComponent title ++
    exactLength ++
      String.join (encodedAnnounces.map fun announce => "&tr=" ++ announce)

/-- What a search matched, as far as its magnets go. -/
structure Matched where
  items : List SharedItem
  announcesEncoded : List String
  magnetLinksEnabled : Bool

/-- `collect`, once the store has answered: `found` is the test of the query's
words and categories. -/
def collect (found : SharedItem → Bool) (magnetLinks : Bool)
    (announces : List String) (items : List SharedItem) : Matched where
  items := items.filter found
  announcesEncoded :=
    if magnetLinks then announces.map encodeComponent else []
  magnetLinksEnabled := magnetLinks

def Matched.magnetUrl (matched : Matched) (item : SharedItem) : String :=
  if !matched.magnetLinksEnabled || item.isPrivate then ""
  else
    match item.infoHash with
    | some hash =>
      magnetUri hash item.releaseTitle item.size matched.announcesEncoded
    | none => ""

theorem magnetUri_ne_empty (infoHash title : String) (size : Nat)
    (announces : List String) :
    magnetUri infoHash title size announces ≠ "" := by
  have scheme : "magnet:?xt=urn:btih:" ≠ "" := by decide
  unfold magnetUri
  simp only [ne_eq, String.append_eq_empty_iff, scheme, false_and,
    not_false_eq_true]

/-- There is a magnet exactly for what is recorded as a public torrent. -/
theorem magnetUrl_ne_empty_iff {matched : Matched} {item : SharedItem} :
    matched.magnetUrl item ≠ "" ↔
      matched.magnetLinksEnabled = true ∧ item.isPrivate = false ∧
        ∃ hash, item.infoHash = some hash := by
  unfold Matched.magnetUrl
  cases named : item.infoHash with
  | none => simp
  | some hash => simp [magnetUri_ne_empty]

end Feed

end Sharerr
