import Sharerr.Tracker.Swarms
import Sharerr.Vault.Format

/-!
# Announces written in any way

A byte of a value can stand for itself or be escaped, the pairs of a query can
stand in any order, and other pairs among them.  What an announce is read as
depends on the bytes its last pairs spell, not on how they spell them.
-/

namespace Sharerr

namespace Announce

/-- What is relied on of `percent_encoding::percent_decode`: it replaces the
valid escapes and keeps the other bytes. -/
structure PercentDecodes (decoder : Bytes → Bytes) : Prop where
  nil : decoder [] = []
  escape : ∀ high low highValue lowValue rest,
    hexByte high = some highValue → hexByte low = some lowValue →
    decoder (37 :: high :: low :: rest) =
      UInt8.ofNat (highValue * 16 + lowValue) :: decoder rest
  other : ∀ byte rest, byte ≠ 37 →
    decoder (byte :: rest) = byte :: decoder rest

theorem percentDecodes_percentDecoded : PercentDecodes percentDecoded where
  nil := rfl
  escape := by
    intro high low highValue lowValue rest highRead lowRead
    simp only [percentDecoded, highRead, lowRead]
  other := by
    intro byte rest plain
    rw [percentDecoded]
    intro high low tail same
    exact absurd same plain

/-- A byte of a value as it can stand in a query: escaped in digits of either
case, as itself, or a space as a `+`. -/
inductive SpelledByte : Bytes → UInt8 → Prop where
  | escaped {high low : UInt8} {highValue lowValue : Nat}
      (highRead : hexByte high = some highValue)
      (lowRead : hexByte low = some lowValue) :
      SpelledByte [37, high, low] (UInt8.ofNat (highValue * 16 + lowValue))
  | plain {byte : UInt8} (percent : byte ≠ 37) (plus : byte ≠ 43)
      (ampersand : byte ≠ 38) : SpelledByte [byte] byte
  | space : SpelledByte [43] 32

/-- A value as it can stand in a query. -/
inductive Spelled : Bytes → Bytes → Prop where
  | nil : Spelled [] []
  | cons {raw rawRest value : Bytes} {byte : UInt8} :
      SpelledByte raw byte → Spelled rawRest value →
      Spelled (raw ++ rawRest) (byte :: value)

/-- What has no meaning of its own in a query spells itself. -/
theorem spelled_self {value : Bytes}
    (plain : (value.all fun byte =>
      byte ≠ 37 && byte ≠ 43 && byte ≠ 38) = true) :
    Spelled value value := by
  induction value with
  | nil => exact .nil
  | cons byte value ih =>
    rw [List.all_cons, Bool.and_eq_true] at plain
    have first : (byte ≠ 37 ∧ byte ≠ 43) ∧ byte ≠ 38 := by
      simpa using plain.1
    exact .cons (.plain first.1.1 first.1.2 first.2) (ih plain.2)

/-- An escape of a byte, in lower case. -/
def escapeByte (byte : UInt8) : Bytes :=
  let digit (value : Nat) := UInt8.ofNat (Tracker.hexDigit value).toNat
  [37, digit (byte.toNat / 16), digit (byte.toNat % 16)]

theorem hexByte_hexDigit : ∀ value, value < 16 →
    hexByte (UInt8.ofNat (Tracker.hexDigit value).toNat) = some value := by
  decide

theorem spelledByte_escapeByte (byte : UInt8) :
    SpelledByte (escapeByte byte) byte := by
  have small : byte.toNat < 256 := byte.toNat_lt
  have whole : UInt8.ofNat (byte.toNat / 16 * 16 + byte.toNat % 16) =
      byte := by
    rw [Nat.div_add_mod', UInt8.ofNat_toNat]
  have spelled : SpelledByte (escapeByte byte)
      (UInt8.ofNat (byte.toNat / 16 * 16 + byte.toNat % 16)) :=
    .escaped (hexByte_hexDigit _ (by omega)) (hexByte_hexDigit _ (by omega))
  rwa [whole] at spelled

/-- Every value has a spelling. -/
theorem spelled_escapes (value : Bytes) :
    Spelled (value.flatMap escapeByte) value := by
  induction value with
  | nil => exact .nil
  | cons byte value ih =>
    rw [List.flatMap_cons]
    exact .cons (spelledByte_escapeByte byte) ih

theorem ne_plus_of_hexByte {byte : UInt8} {value : Nat}
    (read : hexByte byte = some value) : byte ≠ 43 := by
  rintro rfl
  cases read

section Decoder

variable {decoder : Bytes → Bytes} (decodes : PercentDecodes decoder)

include decodes

theorem percentDecodeBy_spelledByte {raw : Bytes} {byte : UInt8}
    (spelled : SpelledByte raw byte) (rest : Bytes) :
    percentDecodeBy decoder (raw ++ rest) =
      byte :: percentDecodeBy decoder rest := by
  cases spelled with
  | escaped highRead lowRead =>
    simp only [percentDecodeBy, List.map_append, List.map_cons,
      List.map_nil, if_neg (ne_plus_of_hexByte highRead),
      if_neg (ne_plus_of_hexByte lowRead)]
    exact decodes.escape _ _ _ _ _ highRead lowRead
  | plain percent plus ampersand =>
    simp only [percentDecodeBy, List.map_append, List.map_cons,
      List.map_nil, if_neg plus]
    exact decodes.other _ _ percent
  | space =>
    simp only [percentDecodeBy, List.map_append, List.map_cons,
      List.map_nil, if_true]
    exact decodes.other _ _ (by decide)

theorem percentDecodeBy_spelled {raw value : Bytes}
    (spelled : Spelled raw value) : percentDecodeBy decoder raw = value := by
  induction spelled with
  | nil => exact decodes.nil
  | cons first _ ih =>
    rw [percentDecodeBy_spelledByte decodes first, ih]

end Decoder

/-- The pair is one under this key. -/
def IsUnder (key : String) (pair : Bytes) : Prop :=
  pair = Vault.toUtf8 key ∨ ∃ raw, pair = Vault.toUtf8 key ++ 61 :: raw

/-- The last pair under this key has this text after its `=`. -/
def LastPair (pairs : List Bytes) (key : String) (raw : Bytes) : Prop :=
  ∃ earlier later, pairs = earlier ++ (Vault.toUtf8 key ++ 61 :: raw) :: later ∧
    ∀ pair ∈ later, ¬ IsUnder key pair

theorem splitPair_append {key raw : Bytes} (plain : 61 ∉ key) :
    splitPair (key ++ 61 :: raw) = (key, raw) := by
  have front : (key ++ 61 :: raw).takeWhile (fun byte => byte ≠ 61) =
      key := by
    rw [List.takeWhile_append_of_pos fun byte member => by
      rw [decide_eq_true_eq]
      rintro rfl
      exact plain member]
    simp
  rw [splitPair, front]
  simp

theorem isUnder_of_splitPair {key : String} {pair : Bytes}
    (named : (splitPair pair).1 = Vault.toUtf8 key) : IsUnder key pair := by
  have whole := List.takeWhile_append_dropWhile
    (p := fun byte : UInt8 => decide (byte ≠ 61)) (l := pair)
  have front : pair.takeWhile (fun byte => decide (byte ≠ 61)) =
      Vault.toUtf8 key := named
  rw [front] at whole
  cases rest : pair.dropWhile fun byte => decide (byte ≠ 61) with
  | nil =>
    rw [rest, List.append_nil] at whole
    exact .inl whole.symm
  | cons byte raw =>
    have more : pair.dropWhile (fun byte => decide (byte ≠ 61)) ≠ [] := by
      rw [rest]
      exact List.cons_ne_nil _ _
    have stops := List.head_dropWhile_not
      (fun byte : UInt8 => decide (byte ≠ 61)) more
    have equals : byte = 61 := by
      simp only [rest, List.head_cons] at stops
      simpa using stops
    rw [rest, equals] at whole
    exact .inr ⟨raw, whole.symm⟩

theorem splitPair_of_isUnder {key : String} {pair : Bytes}
    (plain : 61 ∉ Vault.toUtf8 key) (under : IsUnder key pair) :
    (splitPair pair).1 = Vault.toUtf8 key := by
  rcases under with rfl | ⟨raw, rfl⟩
  · exact List.takeWhile_eq_self_iff.mpr fun byte member => by
      rw [decide_eq_true_eq]
      rintro rfl
      exact plain member
  · rw [splitPair_append plain]

section Query

variable {decoder : Bytes → Bytes} {pairs : List Bytes} {key : String}
variable {raw value : Bytes}

/-- What `parse_query` makes of one pair. -/
def readPair (decoder : Bytes → Bytes) (pair : Bytes) :
    Option (String × Bytes) :=
  if pair.isEmpty then none
  else (Vault.fromUtf8 (splitPair pair).1).map fun key =>
    (key, percentDecodeBy decoder (splitPair pair).2)

theorem parseQueryBy_eq (query : Bytes) : parseQueryBy decoder query =
    (query.splitOn 38).filterMap (readPair decoder) :=
  rfl

theorem readPair_append (plain : 61 ∉ Vault.toUtf8 key) :
    readPair decoder (Vault.toUtf8 key ++ 61 :: raw) =
      some (key, percentDecodeBy decoder raw) := by
  rw [readPair, if_neg (by simp), splitPair_append plain,
    Vault.fromUtf8_toUtf8]
  rfl

theorem isUnder_of_readPair {pair : Bytes} {entry : String × Bytes}
    (read : readPair decoder pair = some entry) : IsUnder entry.1 pair := by
  unfold readPair at read
  split at read
  · cases read
  · obtain ⟨name, decoded, rfl⟩ := Option.map_eq_some_iff.mp read
    exact isUnder_of_splitPair (Vault.eq_toUtf8_of_fromUtf8 decoded)

theorem collected_parseQueryBy (apart : ∀ pair ∈ pairs, 38 ∉ pair)
    (plain : 61 ∉ Vault.toUtf8 key) (last : LastPair pairs key raw) :
    Rust.collected (parseQueryBy decoder ([38].intercalate pairs)) key =
      some (percentDecodeBy decoder raw) := by
  obtain ⟨earlier, later, rfl, others⟩ := last
  rw [parseQueryBy_eq, List.splitOn_intercalate 38 apart (by simp),
    List.filterMap_append,
    List.filterMap_cons_some (readPair_append plain)]
  apply Rust.collected_last
  intro entry member same
  obtain ⟨pair, among, read⟩ := List.mem_filterMap.mp member
  apply others pair among
  rw [← same]
  exact isUnder_of_readPair read

/-- The query says this value of the key. -/
def Says (pairs : List Bytes) (key : String) (value : Bytes) : Prop :=
  ∃ raw, LastPair pairs key raw ∧ Spelled raw value

/-- The query says this number of the key, in decimal. -/
def SaysNumber (pairs : List Bytes) (key : String) (number : Nat) : Prop :=
  ∃ text, Rust.IsNumeral text number ∧ Says pairs key (Vault.toUtf8 text)

/-- A pair that no later one has the key of is the last under it. -/
theorem says_of_last (earlier later : List Bytes)
    (plain : 61 ∉ Vault.toUtf8 key)
    (others : ∀ pair ∈ later, (splitPair pair).1 ≠ Vault.toUtf8 key)
    (spelled : Spelled raw value) :
    Says (earlier ++ (Vault.toUtf8 key ++ 61 :: raw) :: later) key value :=
  ⟨raw, ⟨earlier, later, rfl, fun pair member under =>
    others pair member (splitPair_of_isUnder plain under)⟩, spelled⟩

theorem collected_of_pairs (decodes : PercentDecodes decoder)
    (apart : ∀ pair ∈ pairs, 38 ∉ pair)
    (plain : 61 ∉ Vault.toUtf8 key) (said : Says pairs key value) :
    Rust.collected (parseQueryBy decoder ([38].intercalate pairs)) key =
      some value := by
  obtain ⟨raw, last, spelled⟩ := said
  rw [collected_parseQueryBy apart plain last,
    percentDecodeBy_spelled decodes spelled]

theorem hashParameter_of_says {params : String → Option Bytes}
    {hash : HashBytes} (held : params key = some hash.1) :
    hashParameter params key = .ok hash := by
  simp only [hashParameter, held, dif_pos hash.2]

theorem numberParameter_of_says {number : Nat} (default : Nat)
    (decodes : PercentDecodes decoder) (apart : ∀ pair ∈ pairs, 38 ∉ pair)
    (plain : 61 ∉ Vault.toUtf8 key) (said : SaysNumber pairs key number)
    (fits : number < Rust.u64Bound) :
    numberParameter
      (Rust.collected (parseQueryBy decoder ([38].intercalate pairs))) key
      default = .ok number := by
  obtain ⟨text, isNumeral, said⟩ := said
  simp only [numberParameter, collected_of_pairs decodes apart plain said,
    Vault.fromUtf8_toUtf8, Option.bind_some,
    Rust.parseU64_of_isNumeral isNumeral fits]

/-- An announce is read as what it says, however it says it: the bytes and
numbers of the last pair under each key. -/
theorem parse_exact {infoHash peerId : HashBytes}
    {port left uploaded downloaded numwant : Nat}
    (decodes : PercentDecodes decoder) (apart : ∀ pair ∈ pairs, 38 ∉ pair)
    (saysHash : Says pairs "info_hash" infoHash.1)
    (saysPeer : Says pairs "peer_id" peerId.1)
    (saysPort : SaysNumber pairs "port" port)
    (saysLeft : SaysNumber pairs "left" left)
    (saysUploaded : SaysNumber pairs "uploaded" uploaded)
    (saysDownloaded : SaysNumber pairs "downloaded" downloaded)
    (saysNumwant : SaysNumber pairs "numwant" numwant)
    (isPort : 1 ≤ port ∧ port ≤ 65535)
    (fitsLeft : left < Rust.u64Bound)
    (fitsUploaded : uploaded < Rust.u64Bound)
    (fitsDownloaded : downloaded < Rust.u64Bound)
    (fitsNumwant : numwant < Rust.u64Bound) :
    ∃ request, AnnounceRequest.parseBy decoder ([38].intercalate pairs) =
        .ok request ∧
      request.infoHash = infoHash ∧ request.peerId = peerId ∧
      request.port = port ∧ request.left = left ∧
      request.uploaded = uploaded ∧ request.downloaded = downloaded ∧
      request.numwant = min numwant maxNumwant := by
  have fitsPort : port < Rust.u64Bound := by
    unfold Rust.u64Bound
    omega
  have readHash := hashParameter_of_says
    (collected_of_pairs decodes apart (by decide) saysHash)
  have readPeer := hashParameter_of_says
    (collected_of_pairs decodes apart (by decide) saysPeer)
  have readPort := numberParameter_of_says 0 decodes apart (by decide)
    saysPort fitsPort
  have readLeft := numberParameter_of_says 0 decodes apart (by decide)
    saysLeft fitsLeft
  have readUploaded := numberParameter_of_says 0 decodes apart (by decide)
    saysUploaded fitsUploaded
  have readDownloaded := numberParameter_of_says 0 decodes apart (by decide)
    saysDownloaded fitsDownloaded
  have readNumwant := numberParameter_of_says maxNumwant decodes apart
    (by decide) saysNumwant fitsNumwant
  have admitted : portParameter (Rust.collected
      (parseQueryBy decoder ([38].intercalate pairs))) = .ok port := by
    simp only [portParameter, readPort, bind, Except.bind]
    rw [if_neg (by omega)]
    simp only [pure, Except.pure]
    rw [if_neg (by omega)]
  simp only [AnnounceRequest.parseBy, admitted, readHash, readPeer, readLeft,
    readUploaded, readDownloaded, readNumwant, bind, Except.bind, pure,
    Except.pure]
  exact ⟨_, rfl, rfl, rfl, rfl, rfl, rfl, rfl, rfl⟩

end Query

/-- An announce that names its `left` and `numwant` twice, between an empty
pair and one under another key. -/
theorem mixed_announce_parses :
    let pairOf (key : String) (raw : Bytes) : Bytes :=
      Vault.toUtf8 key ++ 61 :: raw
    let pairs := [pairOf "left" [57], pairOf "numwant" [57, 57],
      pairOf "info_hash" ((List.replicate 20 255).flatMap escapeByte), [],
      pairOf "peer_id" (List.replicate 20 45), pairOf "port" [56, 48],
      pairOf "event" [37], pairOf "uploaded" [48], pairOf "left" [48],
      pairOf "downloaded" [48]]
    ∃ request, AnnounceRequest.parseBy percentDecoded
        ([38].intercalate pairs) = .ok request ∧
      request.infoHash = ⟨List.replicate 20 255, rfl⟩ ∧
      request.peerId = ⟨List.replicate 20 45, rfl⟩ ∧
      request.port = 80 ∧ request.left = 0 ∧ request.uploaded = 0 ∧
      request.downloaded = 0 ∧ request.numwant = min 99 maxNumwant := by
  intro pairOf pairs
  have zero := Rust.isNumeral_toString 0
  have number := Rust.isNumeral_toString 80
  have many := Rust.isNumeral_toString 99
  exact parse_exact percentDecodes_percentDecoded (by decide)
    (says_of_last (pairs.take 2) (pairs.drop 3) (by decide) (by decide)
      (spelled_escapes _))
    (says_of_last (pairs.take 4) (pairs.drop 5) (by decide) (by decide)
      (spelled_self (by decide)))
    ⟨_, number, says_of_last (pairs.take 5) (pairs.drop 6) (by decide)
      (by decide) (spelled_self (by decide))⟩
    ⟨_, zero, says_of_last (pairs.take 8) (pairs.drop 9) (by decide)
      (by decide) (spelled_self (by decide))⟩
    ⟨_, zero, says_of_last (pairs.take 7) (pairs.drop 8) (by decide)
      (by decide) (spelled_self (by decide))⟩
    ⟨_, zero, says_of_last (pairs.take 9) (pairs.drop 10) (by decide)
      (by decide) (spelled_self (by decide))⟩
    ⟨_, many, says_of_last (pairs.take 1) (pairs.drop 2) (by decide)
      (by decide) (spelled_self (by decide))⟩
    (by decide) (by decide) (by decide) (by decide) (by decide)

end Announce

end Sharerr
