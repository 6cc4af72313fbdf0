import Sharerr.Friends.Tagged
import Sharerr.Lighthouse.State

/-!
# Hex case in a public key

The signature of a record is checked against the key its `pubkey` spells, and
a digit of a higher value can be spelled in two ways.
-/

namespace Sharerr

namespace Lighthouse

open Friends (toAsciiLower)

/-- `hex::decode_to_slice`, into so many bytes. -/
def decodeToSlice (text : String) (len : Nat) : Option Bytes :=
  if text.utf8ByteSize = 2 * len then Tracker.hexPairs text.toList else none

/-- What `verify` uses of other crates: the keys of `ed25519_dalek` with its
check of a signature of a message, and the bytes `serde_json` makes of what is
signed. -/
structure Dalek where
  Key : Type
  fromBytes : Bytes → Option Key
  verifies : Key → Bytes → Bytes → Bool
  signableBytes : String → List RecordEndpoint → Int → Option Bytes

namespace Dalek

variable (dalek : Dalek)

/-- The key a `pubkey` spells. -/
def verifyingKey (pubkey : String) : Except String dalek.Key :=
  match decodeToSlice pubkey 32 with
  | none => .error "pubkey is not 32 hex bytes"
  | some bytes =>
    match dalek.fromBytes bytes with
    | none => .error "pubkey is not a valid Ed25519 key"
    | some key => .ok key

/-- `verify`. -/
def verify : Verify := fun record => do
  let key ← dalek.verifyingKey record.pubkey
  match decodeToSlice record.signature 64 with
  | none => throw "signature is not 64 hex bytes"
  | some signature =>
    match dalek.signableBytes record.pubkey record.endpoints
        record.signedAt with
    | none => throw "record could not be serialised"
    | some bytes =>
      if dalek.verifies key bytes signature then return ()
      else throw "signature does not verify"

end Dalek

theorem hexValue_toAsciiLower (character : Char) :
    Tracker.hexValue (toAsciiLower character) = Tracker.hexValue character := by
  unfold toAsciiLower
  split
  · rename_i upper
    have atLeast : 65 ≤ character.toNat := upper.1
    have atMost : character.toNat ≤ 90 := upper.2
    have all : ∀ code, 65 ≤ code → code ≤ 90 →
        Tracker.hexValue (Char.ofNat (code + 32)) =
          Tracker.hexValue (Char.ofNat code) := by
      decide
    have same := all character.toNat atLeast atMost
    rwa [Char.ofNat_toNat] at same
  · rfl

theorem hexPairs_toAsciiLower : ∀ characters : List Char,
    Tracker.hexPairs (characters.map toAsciiLower) =
      Tracker.hexPairs characters
  | [] => rfl
  | [_] => rfl
  | high :: low :: rest => by
      simp only [List.map_cons, Tracker.hexPairs, hexValue_toAsciiLower,
        hexPairs_toAsciiLower rest]

theorem utf8Size_toAsciiLower (character : Char) :
    (toAsciiLower character).utf8Size = character.utf8Size := by
  unfold toAsciiLower
  split
  · rename_i upper
    have atLeast : 65 ≤ character.toNat := upper.1
    have atMost : character.toNat ≤ 90 := upper.2
    have all : ∀ code, 65 ≤ code → code ≤ 90 →
        (Char.ofNat (code + 32)).utf8Size = (Char.ofNat code).utf8Size := by
      decide
    have same := all character.toNat atLeast atMost
    rwa [Char.ofNat_toNat] at same
  · rfl

theorem utf8ByteSize_toAsciiLower (characters : List Char) :
    (String.ofList (characters.map toAsciiLower)).utf8ByteSize =
      (String.ofList characters).utf8ByteSize := by
  induction characters with
  | nil => rfl
  | cons character rest ih =>
    rw [List.map_cons, String.ofList_cons, String.ofList_cons,
      String.utf8ByteSize_append, String.utf8ByteSize_append, ih,
      String.utf8ByteSize_singleton, String.utf8ByteSize_singleton,
      utf8Size_toAsciiLower]

theorem decodeToSlice_toAsciiLowercase (text : String) (len : Nat) :
    decodeToSlice (Rust.toAsciiLowercase text) len =
      decodeToSlice text len := by
  rw [decodeToSlice, Friends.toAsciiLowercase_eq, utf8ByteSize_toAsciiLower,
    String.ofList_toList, String.toList_ofList, hexPairs_toAsciiLower]
  rfl

/-- Spellings that differ in case alone spell one key. -/
theorem Dalek.verifyingKey_of_alike (dalek : Dalek) {left right : String}
    (alike : Rust.eqIgnoreAsciiCase left right = true) :
    dalek.verifyingKey left = dalek.verifyingKey right := by
  have same : Rust.toAsciiLowercase left = Rust.toAsciiLowercase right := by
    simpa [Rust.eqIgnoreAsciiCase] using alike
  have decoded : decodeToSlice left 32 = decodeToSlice right 32 := by
    rw [← decodeToSlice_toAsciiLowercase, same,
      decodeToSlice_toAsciiLowercase]
  rw [verifyingKey, verifyingKey, decoded]

/-- A report does not displace the record of the same key, however it spells
the key. -/
theorem report_of_alike {verify : Verify} {records : Records}
    {report : Report} {existing : EndpointRecord}
    (held : records.map.get report.slot = some existing)
    (alike : Rust.eqIgnoreAsciiCase existing.pubkey report.record.pubkey =
      true) : (records.report verify report).1 ≠ .error .pubkeyMismatch := by
  intro refused
  unfold Records.report at refused
  split at refused
  · cases refused
  · split at refused
    · cases refused
    · split at refused
      · cases refused
      · simp only [Records.file, held, alike, Bool.not_true, Bool.and_false,
          Bool.false_eq_true, if_false] at refused
        split at refused <;> cases refused

end Lighthouse

end Sharerr
