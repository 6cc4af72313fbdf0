import Sharerr.Friends.Handlers
import Sharerr.Rust.Padded

/-!
# Invites as strings

An invite is written by one derived serialiser, which leaves out the fields
that are not there, and read by another, which takes their absence and `null`
for the same.  What is read then passes seven checks, and an invite that passes
them is read from its own string and from no other's.
-/

namespace Sharerr

namespace Friends

inductive Json where
  | null
  | bool (value : Bool)
  | integer (value : Int)
  /-- A number with a fraction, an exponent or more digits than 64 bits have. -/
  | real (text : String)
  | text (value : String)
  | array (values : List Json)
  | object (fields : List (String × Json))

namespace Json

def asU8 : Json → Option Nat
  | integer value =>
    if 0 ≤ value ∧ value < 256 then some value.toNat else none
  | _ => none

def asI64 : Json → Option Int
  | integer value =>
    if Rust.i64Min ≤ value ∧ value ≤ Rust.i64Max then some value else none
  | _ => none

def asText : Json → Option String
  | text value => some value
  | _ => none

/-- `Option<String>`. -/
def asOption : Json → Option (Option String)
  | null => some none
  | text value => some (some value)
  | _ => none

/-- The value of a key, where it is not given twice. -/
def field (fields : List (String × Json)) (key : String) :
    Option (Option Json) :=
  match fields.filter fun entry => entry.1 = key with
  | [] => some none
  | [entry] => some (some entry.2)
  | _ => none

def required {α : Type} (read : Json → Option α)
    (fields : List (String × Json)) (key : String) : Option α :=
  ((field fields key).bind id).bind read

/-- `serde(default)`. -/
def optional (fields : List (String × Json)) (key : String) :
    Option (Option String) :=
  (field fields key).bind fun value => value.elim (some none) asOption

end Json

namespace Invite

def serialize (invite : Invite) : Json :=
  .object
    ([("v", .integer invite.v), ("url", .text invite.url),
        ("key", .text invite.key), ("issued_at", .integer invite.issuedAt)] ++
      (invite.pubkey.toList.map fun pubkey => ("pubkey", .text pubkey)) ++
        invite.inReplyTo.toList.map fun hash => ("in_reply_to", .text hash))

/-- What is derived for an object: a key the struct does not have is skipped. -/
def ofObject (fields : List (String × Json)) : Option Invite := do
  let v ← Json.required Json.asU8 fields "v"
  let url ← Json.required Json.asText fields "url"
  let key ← Json.required Json.asText fields "key"
  let issuedAt ← Json.required Json.asI64 fields "issued_at"
  let pubkey ← Json.optional fields "pubkey"
  let inReplyTo ← Json.optional fields "in_reply_to"
  return ⟨⟨url, key, pubkey⟩, v, issuedAt, inReplyTo⟩

/-- The last two fields of an array, which may be left out. -/
def ofRest : List Json → Option (Option String × Option String)
  | [] => some (none, none)
  | [pubkey] => pubkey.asOption.map fun pubkey => (pubkey, none)
  | [pubkey, hash] => pubkey.asOption.bind fun pubkey =>
    hash.asOption.map fun hash => (pubkey, hash)
  | _ => none

/-- What is derived for an array: the fields in order. -/
def ofArray : List Json → Option Invite
  | v :: url :: key :: issuedAt :: rest => do
      let v ← v.asU8
      let url ← url.asText
      let key ← key.asText
      let issuedAt ← issuedAt.asI64
      let (pubkey, inReplyTo) ← ofRest rest
      return ⟨⟨url, key, pubkey⟩, v, issuedAt, inReplyTo⟩
  | _ => none

def deserialize : Json → Option Invite
  | .object fields => ofObject fields
  | .array values => ofArray values
  | _ => none

/-- What the types of the fields hold. -/
structure Fits (invite : Invite) : Prop where
  v : invite.v < 256
  low : Rust.i64Min ≤ invite.issuedAt
  high : invite.issuedAt ≤ Rust.i64Max

section Fields

variable {invite : Invite} {fields : List (String × Json)} {json : Json}

theorem deserialize_serialize (fits : invite.Fits) :
    deserialize invite.serialize = some invite := by
  obtain ⟨⟨url, key, pubkey⟩, v, issuedAt, inReplyTo⟩ := invite
  obtain ⟨v_, low, high⟩ := fits
  dsimp only at v_ low high
  have version : Json.asU8 (.integer (v : Int)) = some v := by
    rw [Json.asU8, if_pos ⟨Int.natCast_nonneg v, by omega⟩, Int.toNat_natCast]
  have issued : Json.asI64 (.integer issuedAt) = some issuedAt :=
    if_pos ⟨low, high⟩
  cases pubkey <;> cases inReplyTo <;>
    simp [serialize, deserialize, ofObject, Json.required, Json.optional,
      Json.field, Json.asText, Json.asOption, version, issued]

theorem Json.asU8_eq_some {value : Nat} (read : json.asU8 = some value) :
    value < 256 := by
  cases json with
  | integer number =>
    rw [Json.asU8] at read
    split at read
    · cases read
      omega
    · cases read
  | _ => cases read

theorem Json.asI64_eq_some {value : Int} (read : json.asI64 = some value) :
    Rust.i64Min ≤ value ∧ value ≤ Rust.i64Max := by
  cases json with
  | integer number =>
    rw [Json.asI64] at read
    split at read
    · next range =>
        cases read
        exact range
    · cases read
  | _ => cases read

theorem fits_of_deserialize (read : deserialize json = some invite) :
    invite.Fits := by
  cases json with
  | object fields =>
    obtain ⟨v, version, read⟩ := Option.bind_eq_some_iff.mp read
    obtain ⟨url, -, read⟩ := Option.bind_eq_some_iff.mp read
    obtain ⟨key, -, read⟩ := Option.bind_eq_some_iff.mp read
    obtain ⟨issuedAt, issued, read⟩ := Option.bind_eq_some_iff.mp read
    obtain ⟨pubkey, -, read⟩ := Option.bind_eq_some_iff.mp read
    obtain ⟨hash, -, read⟩ := Option.bind_eq_some_iff.mp read
    cases read
    obtain ⟨_, -, version⟩ := Option.bind_eq_some_iff.mp version
    obtain ⟨_, -, issued⟩ := Option.bind_eq_some_iff.mp issued
    obtain ⟨low, high⟩ := Json.asI64_eq_some issued
    exact ⟨Json.asU8_eq_some version, low, high⟩
  | array values =>
    match values with
    | v :: url :: key :: issuedAt :: rest =>
      obtain ⟨_, version, read⟩ := Option.bind_eq_some_iff.mp read
      obtain ⟨_, -, read⟩ := Option.bind_eq_some_iff.mp read
      obtain ⟨_, -, read⟩ := Option.bind_eq_some_iff.mp read
      obtain ⟨_, issued, read⟩ := Option.bind_eq_some_iff.mp read
      obtain ⟨_, -, read⟩ := Option.bind_eq_some_iff.mp read
      cases read
      obtain ⟨low, high⟩ := Json.asI64_eq_some issued
      exact ⟨Json.asU8_eq_some version, low, high⟩
  | _ => cases read

end Fields

end Invite

/-- The crates an invite is written and read with. -/
structure PasteCrates extends Gossip.Crates where
  encodeBase64 : List UInt8 → String
  decodeBase64 : String → Option (List UInt8)
  /-- `serde_json::to_vec`. -/
  toVec : Json → List UInt8
  fromSlice : List UInt8 → Option Json

/-- The crates of the handlers, with the derived reader of an invite. -/
def PasteCrates.friends (crates : PasteCrates) : Crates where
  toCrates := crates.toCrates
  decodeBase64 := crates.decodeBase64
  parseInvite json := (crates.fromSlice json).bind Invite.deserialize

/-- `Invite::encode`. -/
def Invite.encode (crates : PasteCrates) (invite : Invite) : String :=
  inviteHead ++ crates.encodeBase64 (crates.toVec invite.serialize)

/-- `Invite::decode` at a reading of the clock. -/
def decodeAt (crates : Crates) (now : Int) (text : String) :
    Except String Invite := do
  let invite ← readInvite crates text
  invite.checkDates now
  invite.checkFacts crates
  return invite

theorem decode_eq (crates : Crates) (text : String) : decode crates text =
    match readInvite crates text with
    | .error reason => .done (.error reason)
    | .ok _ => .call (.gossip .nowEpoch) fun now =>
      .done (decodeAt crates now text) := by
  rw [decode]
  cases read : readInvite crates text with
  | error reason => rfl
  | ok invite =>
    simp only [decodeAt, read]
    rfl

/-- What the crates make of an invite is read back by them, as one word. -/
structure PasteCrates.RoundTrips (crates : PasteCrates) (invite : Invite) :
    Prop where
  json : crates.fromSlice (crates.toVec invite.serialize) =
    some invite.serialize
  base64 : crates.decodeBase64
      (crates.encodeBase64 (crates.toVec invite.serialize)) =
    some (crates.toVec invite.serialize)
  urlSafe : ∀ character ∈
      (crates.encodeBase64 (crates.toVec invite.serialize)).toList,
    character.isAlphanum = true ∨ character = '-' ∨ character = '_'

/-- A reading of the clock. -/
abbrev Clock := { now : Int // Rust.i64Min ≤ now ∧ now ≤ Rust.i64Max }

/-- What an invite has to be to be accepted. -/
structure Invite.IsValid (crates : Gossip.Crates) (now : Clock)
    (invite : Invite) : Prop where
  current : invite.v = version
  fits : invite.Fits
  recent : now.1 - inviteTtlSecs ≤ invite.issuedAt
  present : invite.issuedAt ≤ now.1 + maxFutureSkewSecs
  address : crates.scheme invite.url = .ok "http" ∨
    crates.scheme invite.url = .ok "https"
  key : ¬ Rust.IsBlank invite.key.toList
  short : invite.key.utf8ByteSize ≤ 256
  pubkey : ∀ pubkey ∈ invite.pubkey, isHex32Bytes pubkey = true
  inReplyTo : ∀ hash ∈ invite.inReplyTo, isHex32Bytes hash = true

section Checks

variable {invite : Invite} {now : Clock}

theorem checkDates_eq_ok (fits : invite.Fits) :
    invite.checkDates now.1 = .ok () ↔
      now.1 - inviteTtlSecs ≤ invite.issuedAt ∧
        invite.issuedAt ≤ now.1 + maxFutureSkewSecs := by
  obtain ⟨now, low, high⟩ := now
  have ahead : Rust.saturatingAdd now maxFutureSkewSecs < invite.issuedAt ↔
      now + maxFutureSkewSecs < invite.issuedAt := by
    have bounds := fits.high
    simp only [Rust.saturatingAdd, Rust.i64Min, Rust.i64Max,
      maxFutureSkewSecs] at *
    omega
  have old : inviteTtlSecs < Rust.saturatingSub now invite.issuedAt ↔
      inviteTtlSecs < now - invite.issuedAt := by
    simp only [Rust.saturatingSub, Rust.i64Min, Rust.i64Max, inviteTtlSecs]
    omega
  dsimp only
  rw [Invite.checkDates]
  constructor
  · intro passes
    split at passes
    · cases passes
    · split at passes
      · cases passes
      · omega
  · rintro ⟨recent, present⟩
    rw [if_neg (by omega), if_neg (by omega)]

variable {text : String}

theorem trim_eq_empty_iff :
    Rust.trim text = "" ↔ Rust.IsBlank text.toList := by
  obtain ⟨front, back, before, behind, -, whole⟩ := Rust.exists_padding text
  constructor
  · intro empty
    rw [empty] at whole
    rw [whole]
    intro character member
    simp only [String.toList_empty, List.append_nil, List.mem_append] at member
    exact member.elim (before character) (behind character)
  · intro blank
    have none_ := Rust.trim_padded blank .nil (List.forall_mem_nil _)
    simpa using none_

theorem validateUrl_eq_ok {crates : Gossip.Crates} {url : String} :
    Gossip.validateUrl crates url = .ok () ↔
      crates.scheme url = .ok "http" ∨ crates.scheme url = .ok "https" := by
  rw [Gossip.validateUrl, Gossip.Crates.scheme]
  cases crates.parseUrl url with
  | error reason => exact ⟨nofun, fun either => either.elim nofun nofun⟩
  | ok parsed =>
    dsimp only
    rw [Except.map]
    constructor
    · intro passes
      split at passes
      · next http => exact http.imp (congrArg _) (congrArg _)
      · cases passes
    · intro http
      exact if_pos (http.imp (fun same => Except.ok.inj same)
        fun same => Except.ok.inj same)

theorem validateKey_eq_ok {key : String} :
    Gossip.validateKey key = .ok () ↔
      ¬ Rust.IsBlank key.toList ∧ key.utf8ByteSize ≤ 256 := by
  rw [Gossip.validateKey, ← trim_eq_empty_iff]
  constructor
  · intro passes
    split at passes
    · cases passes
    · next some_ =>
        split at passes
        · cases passes
        · next short => exact ⟨some_, Nat.le_of_not_lt short⟩
  · rintro ⟨some_, short⟩
    rw [if_neg some_]
    exact if_neg (Nat.not_lt_of_le short)

theorem any_not_eq_false {holds : String → Bool} {value : Option String} :
    (value.any fun text => !holds text) = false ↔
      ∀ text ∈ value, holds text = true := by
  cases value <;> simp

theorem checkFacts_eq_ok {crates : Crates} :
    invite.checkFacts crates = .ok () ↔
      Gossip.validateUrl crates.toCrates invite.url = .ok () ∧
        Gossip.validateKey invite.key = .ok () ∧
          (∀ pubkey ∈ invite.pubkey, isHex32Bytes pubkey = true) ∧
            ∀ hash ∈ invite.inReplyTo, isHex32Bytes hash = true := by
  rw [← any_not_eq_false, ← any_not_eq_false, Invite.checkFacts]
  cases Gossip.validateUrl crates.toCrates invite.url with
  | error reason => exact ⟨nofun, nofun⟩
  | ok =>
    cases Gossip.validateKey invite.key with
    | error reason => exact ⟨nofun, nofun⟩
    | ok =>
      cases invite.pubkey.any fun pubkey => !isHex32Bytes pubkey with
      | true => exact ⟨nofun, nofun⟩
      | false =>
        cases invite.inReplyTo.any fun hash => !isHex32Bytes hash with
        | true => exact ⟨nofun, nofun⟩
        | false => exact ⟨fun _ => ⟨rfl, rfl, rfl, rfl⟩, fun _ => rfl⟩

/-- A text is read as an invite where it is one, before its checks. -/
theorem readInvite_eq_ok {crates : Crates} :
    readInvite crates text = .ok invite ↔
      ∃ encoded json, Rust.stripPrefix inviteHead (Rust.trim text) =
          some encoded ∧
        crates.decodeBase64 (Rust.trim encoded) = some json ∧
          crates.parseInvite json = some invite ∧ invite.v = version := by
  rw [readInvite]
  constructor
  · intro read
    split at read
    · cases read
    · next encoded stripped =>
        split at read
        · cases read
        · next json decoded =>
            split at read
            · cases read
            · next other parsed =>
                split at read
                · next current =>
                    cases read
                    exact ⟨encoded, json, stripped, decoded, parsed, current⟩
                · cases read
  · rintro ⟨encoded, json, stripped, decoded, parsed, current⟩
    simp only [stripped, decoded, parsed, if_pos current]

/-- What is accepted, and from where. -/
theorem decodeAt_eq_ok {crates : PasteCrates} :
    decodeAt crates.friends now.1 text = .ok invite ↔
      readInvite crates.friends text = .ok invite ∧
        invite.IsValid crates.toCrates now := by
  constructor
  · intro read
    obtain ⟨other, found, read⟩ := Rust.bind_eq_ok read
    obtain ⟨_, dates, read⟩ := Rust.bind_eq_ok read
    obtain ⟨_, facts, read⟩ := Rust.bind_eq_ok read
    cases read
    refine ⟨found, ?_⟩
    obtain ⟨encoded, json, -, -, parsed, current⟩ := readInvite_eq_ok.mp found
    obtain ⟨_, -, derived⟩ := Option.bind_eq_some_iff.mp parsed
    have fits := Invite.fits_of_deserialize derived
    obtain ⟨recent, present⟩ := (checkDates_eq_ok fits).mp dates
    obtain ⟨address, key, pubkey, hash⟩ := checkFacts_eq_ok.mp facts
    obtain ⟨some_, short⟩ := validateKey_eq_ok.mp key
    exact ⟨current, fits, recent, present, validateUrl_eq_ok.mp address, some_,
      short, pubkey, hash⟩
  · rintro ⟨found, valid⟩
    have dates := (checkDates_eq_ok valid.fits).mpr
      ⟨valid.recent, valid.present⟩
    have facts : invite.checkFacts crates.friends = .ok () :=
      checkFacts_eq_ok.mpr ⟨validateUrl_eq_ok.mpr valid.address,
        validateKey_eq_ok.mpr ⟨valid.key, valid.short⟩, valid.pubkey,
        valid.inReplyTo⟩
    rw [decodeAt, found]
    simp only [bind, Except.bind, dates, facts]
    rfl

end Checks

section Written

variable {crates : PasteCrates} {invite other : Invite} {now : Clock}

theorem isWhitespace_of_inviteHead :
    ∀ character ∈ inviteHead.toList, Rust.isWhitespace character = false := by
  have plain : inviteHead.toList.all (Rust.isWhitespace · = false) = true := by
    rw [inviteHead, String.toList_ofList]
    decide
  exact fun character among =>
    of_decide_eq_true (List.all_eq_true.mp plain character among)

theorem encode_trimmed (roundTrips : crates.RoundTrips invite) :
    ∀ character ∈ (invite.encode crates).toList,
      Rust.isWhitespace character = false := by
  intro character member
  rw [Invite.encode, String.toList_append, List.mem_append] at member
  rcases member with head | encoded
  · exact isWhitespace_of_inviteHead character head
  · rcases roundTrips.urlSafe character encoded with alphanum | rfl | rfl
    · exact Rust.isWhitespace_of_isAlphanum alphanum
    · rfl
    · rfl

/-- An invite of this version is read from its string, with whitespace around
it. -/
theorem readInvite_encode (roundTrips : crates.RoundTrips invite)
    (fits : invite.Fits) (current : invite.v = version) {front back : String}
    (before : Rust.IsBlank front.toList) (behind : Rust.IsBlank back.toList) :
    readInvite crates.friends (front ++ invite.encode crates ++ back) =
      .ok invite := by
  have plain := encode_trimmed roundTrips
  have trimmed := Rust.trim_padded before (.of_plain plain) behind
  rw [← String.toList_append, ← String.toList_append, String.ofList_toList,
    String.ofList_toList] at trimmed
  have word : Rust.trim (crates.encodeBase64 (crates.toVec invite.serialize)) =
      crates.encodeBase64 (crates.toVec invite.serialize) := by
    refine (Rust.IsTrimmed.of_plain fun character member => ?_).trim_eq
    refine plain character ?_
    rw [Invite.encode, String.toList_append]
    exact List.mem_append_right _ member
  refine readInvite_eq_ok.mpr ⟨crates.encodeBase64
    (crates.toVec invite.serialize), crates.toVec invite.serialize, ?_, ?_, ?_,
      current⟩
  · rw [trimmed]
    exact Rust.stripPrefix_append inviteHead _
  · rw [word]
    exact roundTrips.base64
  · change (crates.fromSlice _).bind Invite.deserialize = some invite
    rw [roundTrips.json]
    exact Invite.deserialize_serialize fits

/-- Two invites have two strings. -/
theorem encode_inj (roundTrips : crates.RoundTrips invite)
    (fits : invite.Fits) (roundTrips_ : crates.RoundTrips other)
    (fits_ : other.Fits) (same : invite.encode crates = other.encode crates) :
    invite = other := by
  have words : crates.encodeBase64 (crates.toVec invite.serialize) =
      crates.encodeBase64 (crates.toVec other.serialize) := by
    rw [Invite.encode, Invite.encode, ← String.toList_inj,
      String.toList_append, String.toList_append] at same
    exact String.toList_inj.mp (List.append_cancel_left same)
  have bytes : some (crates.toVec invite.serialize) =
      some (crates.toVec other.serialize) := by
    rw [← roundTrips.base64, words]
    exact roundTrips_.base64
  have values : some invite.serialize = some other.serialize := by
    rw [← roundTrips.json, Option.some.inj bytes]
    exact roundTrips_.json
  have read := Invite.deserialize_serialize fits
  rw [Option.some.inj values, Invite.deserialize_serialize fits_] at read
  exact (Option.some.inj read).symm

/-- What is issued is read back from its string with any whitespace around it,
what is read could have been issued, and two invites have two strings. -/
theorem invites_round_trip (crates : PasteCrates) (now : Clock) :
    (∀ invite, crates.RoundTrips invite →
      invite.IsValid crates.toCrates now → ∀ front back : String,
        Rust.IsBlank front.toList → Rust.IsBlank back.toList →
          decodeAt crates.friends now.1
            (front ++ invite.encode crates ++ back) = .ok invite) ∧
      (∀ text invite, decodeAt crates.friends now.1 text = .ok invite →
        invite.IsValid crates.toCrates now) ∧
        ∀ invite other, crates.RoundTrips invite → crates.RoundTrips other →
          invite.IsValid crates.toCrates now →
            other.IsValid crates.toCrates now →
              invite.encode crates = other.encode crates → invite = other := by
  refine ⟨?_, ?_, ?_⟩
  · intro invite roundTrips valid front back before behind
    exact decodeAt_eq_ok.mpr ⟨readInvite_encode roundTrips valid.fits
      valid.current before behind, valid⟩
  · intro text invite read
    exact (decodeAt_eq_ok.mp read).2
  · intro invite other roundTrips roundTrips_ valid valid_ same
    exact encode_inj roundTrips valid.fits roundTrips_ valid_.fits same

end Written

/-- Crates that know Alex's invite. -/
def knownPaste : PasteCrates where
  toCrates := knownCrates.toCrates
  encodeBase64 json :=
    if json = alexJson then
      String.ofList (alexPaste.toList.drop inviteHead.length)
    else ""
  decodeBase64 := knownCrates.decodeBase64
  toVec _ := alexJson
  fromSlice json :=
    if json = alexJson then some alexInvite.serialize else none

/-- What follows the head of Alex's paste. -/
def alexCode : String :=
  "eyJ2IjoxLCJ1cmwiOiJodHRwOi8vYWxleC5leGFtcGxlLyIsImtleSI6ImFsZXgta2V" ++
    "5IiwiaXNzdWVkX2F0IjoxMDAwfQ"

theorem alexPaste_eq : alexPaste = inviteHead ++ alexCode := by
  decide +kernel

theorem isAlphanum_alexCode :
    ∀ character ∈ alexCode.toList, character.isAlphanum = true := by
  have all : alexCode.toList.all Char.isAlphanum = true := by
    decide +kernel
  exact List.all_eq_true.mp all

theorem trim_alexCode : Rust.trim alexCode = alexCode :=
  (Rust.IsTrimmed.of_plain fun character among =>
    Rust.isWhitespace_of_isAlphanum
      (isAlphanum_alexCode character among)).trim_eq

theorem encodeBase64_alexJson :
    knownPaste.encodeBase64 alexJson = alexCode := by
  have code : alexPaste.toList.drop inviteHead.length = alexCode.toList := by
    rw [alexPaste_eq, String.toList_append, ← String.length_toList,
      List.drop_left]
  change (if alexJson = alexJson then
    String.ofList (alexPaste.toList.drop inviteHead.length) else "") = alexCode
  rw [if_pos rfl, code, String.ofList_toList]

theorem decodeBase64_alexCode :
    knownCrates.decodeBase64 alexCode = some alexJson := by
  change (if inviteHead ++ alexCode = alexPaste then some alexJson else none) =
    some alexJson
  rw [if_pos alexPaste_eq.symm]

theorem toVec_alexInvite : knownPaste.toVec alexInvite.serialize = alexJson :=
  rfl

theorem roundTrips_alexInvite : knownPaste.RoundTrips alexInvite := by
  constructor
  · rw [toVec_alexInvite]
    change (if alexJson = alexJson then some alexInvite.serialize else none) = _
    rw [if_pos rfl]
  · rw [toVec_alexInvite, encodeBase64_alexJson]
    exact decodeBase64_alexCode
  · rw [toVec_alexInvite, encodeBase64_alexJson]
    exact fun character among => .inl (isAlphanum_alexCode character among)

theorem checkFacts_alexInvite : alexInvite.checkFacts knownCrates = .ok () := by
  refine checkFacts_eq_ok.mpr ⟨validateUrl_eq_ok.mpr (.inl rfl),
    validateKey_eq_ok.mpr ⟨fun blank => ?_, by decide⟩, nofun, nofun⟩
  exact absurd (blank 'a' (by decide)) (by decide)

theorem readInvite_alexPaste :
    readInvite knownCrates alexPaste = .ok alexInvite := by
  have trimmed : Rust.trim alexPaste = alexPaste := by
    refine (Rust.IsTrimmed.of_plain fun character among => ?_).trim_eq
    rw [alexPaste_eq, String.toList_append, List.mem_append] at among
    rcases among with head | code
    · exact isWhitespace_of_inviteHead character head
    · exact Rust.isWhitespace_of_isAlphanum
        (isAlphanum_alexCode character code)
  refine readInvite_eq_ok.mpr ⟨alexCode, alexJson, ?_, ?_, ?_, rfl⟩
  · rw [trimmed, alexPaste_eq]
    exact Rust.stripPrefix_append _ _
  · rw [trim_alexCode]
    exact decodeBase64_alexCode
  · change (if alexJson = alexJson then some alexInvite else none) = _
    rw [if_pos rfl]

theorem alexInvite_read_back :
    decodeAt knownPaste.friends 1000
      (" " ++ alexInvite.encode knownPaste ++ "\n") = .ok alexInvite := by
  have blank {character : Char} (isBlank : Rust.isWhitespace character = true) :
      Rust.IsBlank [character] :=
    fun other among => List.mem_singleton.mp among ▸ isBlank
  have valid : alexInvite.IsValid knownPaste.toCrates
      ⟨1000, by decide, by decide⟩ :=
    { current := rfl
      fits := ⟨by decide, by decide, by decide⟩
      recent := by decide
      present := by decide
      address := .inl rfl
      key := fun blank => nomatch blank 'a' (by decide)
      short := by decide
      pubkey := nofun
      inReplyTo := nofun }
  exact (invites_round_trip knownPaste ⟨1000, by decide, by decide⟩).1
    alexInvite roundTrips_alexInvite valid " " "\n" (blank rfl) (blank rfl)

end Friends

end Sharerr
