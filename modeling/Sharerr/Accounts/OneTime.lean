import Mathlib.Data.Int.LeastGreatest
import Mathlib.Order.Bounds.Basic
import Sharerr.Accounts.Base32
import Sharerr.Rust.Text

/-!
# Codes that are good for a step

The code of a step is taken out of a digest at a place the digest itself
names, which is never outside of it.  A text is the code of at most one number,
so the step a text is good for is the first of three that has it.
-/

namespace Sharerr

namespace Totp

/-- What SHA-1 makes of a message. -/
abbrev Digest := { bytes : Bytes // bytes.length = 20 }

def blockSize : Nat := 64

/-- `u64::to_be_bytes`. -/
def toBeBytes (counter : Nat) : Bytes :=
  (List.range 8).map fun index =>
    UInt8.ofNat (counter / 256 ^ (7 - index) % 256)

section Hotp

variable (sha1 : Bytes → Digest)

/-- The key in a block of its own, as its digest where it is longer. -/
def keyBlock (key : Bytes) : Bytes :=
  let start := if blockSize < key.length then (sha1 key).1 else key
  start ++ List.replicate (blockSize - start.length) 0

def hmacSha1 (key message : Bytes) : Digest :=
  let block := keyBlock sha1 key
  let inner := sha1 (block.map (· ^^^ 0x36) ++ message)
  sha1 (block.map (· ^^^ 0x5c) ++ inner.1)

/-- The number four bytes of a digest stand for, from the place its last byte
names; nothing where one of the reads is outside of the digest. -/
def truncated (mac : Bytes) : Option Nat := do
  let last ← mac[19]?
  let offset := (last &&& 0x0f).toNat
  let first ← mac[offset]?
  let second ← mac[offset + 1]?
  let third ← mac[offset + 2]?
  let fourth ← mac[offset + 3]?
  return (((first &&& 0x7f).toNat * 256 + second.toNat) * 256 +
    third.toNat) * 256 + fourth.toNat

theorem truncated_isSome (mac : Digest) : (truncated mac.1).isSome = true := by
  obtain ⟨mac, length⟩ := mac
  have inside (index : Nat) (low : index < 20) :
      mac[index]? = some (mac.getD index 0) := by
    rw [List.getD_eq_getElem?_getD, List.getElem?_eq_getElem (by omega)]
    rfl
  have offset : ((mac.getD 19 0) &&& 0x0f).toNat < 16 := by
    rw [UInt8.toNat_and]
    exact Nat.lt_of_le_of_lt Nat.and_le_right (by decide)
  simp only [truncated, Option.bind_eq_bind]
  rw [inside 19 (by decide), Option.bind_some, inside _ (by omega),
    Option.bind_some, inside _ (by omega), Option.bind_some,
    inside _ (by omega), Option.bind_some, inside _ (by omega),
    Option.bind_some]
  rfl

/-- RFC 4226's value, before reduction to digits. -/
def hotp (key : Bytes) (counter : Nat) : Nat :=
  (truncated (hmacSha1 sha1 key (toBeBytes counter)).1).get
    (truncated_isSome _)

end Hotp

/-- Six digits for the last six of a number. -/
structure IsCode (text : String) (value : Nat) : Prop where
  six : text.toList.length = digits
  numeral : Rust.IsNumeral text (value % 10 ^ digits)

section Codes

variable {hotp : (key : Bytes) → (counter : Nat) → Nat} {key : Bytes}
  {counter value : Nat} {text other : String}

theorem isNumeral_zeros (zeros : Nat) {number : Nat}
    (isNumeral : Rust.IsNumeral text number) :
    Rust.IsNumeral (String.ofList (List.replicate zeros '0') ++ text)
      number := by
  have whole : (String.ofList (List.replicate zeros '0') ++ text).toList =
      List.replicate zeros '0' ++ text.toList := by
    rw [String.toList_append, String.toList_ofList]
  constructor
  · rw [whole]
    exact List.append_ne_nil_of_right_ne_nil _ isNumeral.nonempty
  · intro character member
    rw [whole, List.mem_append] at member
    rcases member with zero | digit
    · rw [List.eq_of_mem_replicate zero]
      rfl
    · exact isNumeral.digits character digit
  · rw [whole, Nat.ofDigitChars_append, Nat.ofDigitChars_replicate_zero,
      Nat.mul_zero]
    exact isNumeral.value

theorem isCode_codeFor : IsCode (codeFor hotp key counter)
    (hotp key counter) := by
  refine ⟨?_, isNumeral_zeros _ (Rust.isNumeral_toString _)⟩
  have small : hotp key counter % 10 ^ digits < 10 ^ digits :=
    Nat.mod_lt _ (by decide)
  have few := Nat.repr_length _ digits (by decide) small
  rw [← Nat.toString_eq_repr] at few
  rw [codeFor, String.toList_append, String.toList_ofList, List.length_append,
    List.length_replicate, String.length_toList]
  exact Nat.sub_add_cancel few

theorem ofNat_of_isDigit {character : Char}
    (digit : character.isDigit = true) :
    Char.ofNat (character.toNat - '0'.toNat + 48) = character := by
  have range : 48 ≤ character.toNat := by
    have bounds : 48 ≤ character.toNat ∧ character.toNat ≤ 57 := by
      simpa [Char.isDigit, UInt32.le_iff_toNat_le] using digit
    exact bounds.1
  rw [show '0'.toNat = 48 from rfl, Nat.sub_add_cancel range,
    Char.ofNat_toNat]

theorem IsCode.unique (isCode : IsCode text value)
    (isOther : IsCode other value) : text = other := by
  have small {text : String} (isCode : IsCode text value) :
      ∀ digit ∈ text.toList.map fun character =>
        character.toNat - '0'.toNat, digit < 10 := by
    intro digit member
    obtain ⟨character, among, rfl⟩ := List.mem_map.mp member
    have isDigit := isCode.numeral.digits character among
    have bounds : 48 ≤ character.toNat ∧ character.toNat ≤ 57 := by
      simpa [Char.isDigit, UInt32.le_iff_toNat_le] using isDigit
    rw [show '0'.toNat = 48 from rfl]
    omega
  have back {text : String} (isCode : IsCode text value) :
      ((text.toList.map fun character => character.toNat - '0'.toNat).map
        fun digit => Char.ofNat (digit + 48)) = text.toList := by
    rw [List.map_map]
    exact (List.map_congr_left fun character among =>
      ofNat_of_isDigit (isCode.numeral.digits character among)).trans
        (List.map_id' _)
  have number {text : String} (isCode : IsCode text value) :
      Rust.valueOf 10 (text.toList.map fun character =>
        character.toNat - '0'.toNat) = value % 10 ^ digits :=
    Rust.foldl_of_isNumeral isCode.numeral
  have length : (text.toList.map fun character =>
      character.toNat - '0'.toNat).length =
        (other.toList.map fun character =>
          character.toNat - '0'.toNat).length := by
    rw [List.length_map, List.length_map, isCode.six, isOther.six]
  have same := Rust.valueOf_inj (by decide) length (small isCode)
    (small isOther) ((number isCode).trans (number isOther).symm)
  rw [← String.toList_inj, ← back isCode, ← back isOther, same]

theorem isCode_iff : IsCode text (hotp key counter) ↔
    codeFor hotp key counter = text :=
  ⟨fun isCode => isCode_codeFor.unique isCode,
    fun same => same ▸ isCode_codeFor⟩

theorem IsCode.passes (isCode : IsCode text value) :
    text.utf8ByteSize = digits ∧ text.toList.all isDigit = true := by
  constructor
  · have bytes := Rust.utf8ByteSize_of_ascii fun character member =>
      Rust.ascii_of_isAlphanum (isCode.numeral.alphanum member)
    rw [String.ofList_toList] at bytes
    exact bytes.trans isCode.six
  · rw [List.all_eq_true]
    intro character member
    have digit := isCode.numeral.digits character member
    simpa [isDigit, Char.isDigit, Char.le_def] using digit

end Codes

/-- The first of some numbers in order that something holds of is the
least. -/
theorem find?_eq_some_iff_isLeast {holds : Int → Bool} {numbers : List Int}
    (sorted : numbers.Pairwise (· < ·)) {number : Int} :
    numbers.find? holds = some number ↔
      IsLeast { number | number ∈ numbers ∧ holds number = true } number := by
  induction numbers with
  | nil => exact ⟨nofun, fun least => nomatch least.1.1⟩
  | cons first numbers ih =>
    obtain ⟨above, sorted⟩ := List.pairwise_cons.mp sorted
    by_cases here : holds first = true
    · have least : IsLeast { number | number ∈ first :: numbers ∧
          holds number = true } first := by
        refine ⟨⟨List.mem_cons_self, here⟩, ?_⟩
        rintro other ⟨member, -⟩
        rcases List.mem_cons.mp member with rfl | later
        · exact le_refl other
        · exact (above other later).le
      rw [List.find?_cons_of_pos here, Option.some.injEq]
      exact ⟨fun same => same ▸ least, least.unique⟩
    · rw [List.find?_cons_of_neg here, ih sorted]
      have same : { number | number ∈ numbers ∧ holds number = true } =
          { number | number ∈ first :: numbers ∧ holds number = true } := by
        ext number
        constructor
        · rintro ⟨member, holds_⟩
          exact ⟨List.mem_cons_of_mem first member, holds_⟩
        · rintro ⟨member, holds_⟩
          rcases List.mem_cons.mp member with rfl | later
          · exact absurd holds_ here
          · exact ⟨later, holds_⟩
      rw [same]

/-- A text without its whitespace. -/
def stripped (text : String) : String :=
  String.ofList (text.toList.filter fun character =>
    !Rust.isWhitespace character)

/-- The steps a text is good for: the one of the clock and its neighbours, of
those from zero on, whose code it is but for whitespace. -/
def goodSteps (hotp : Bytes → Nat → Nat) (key : Bytes) (text : String)
    (now : Int) : Set Int :=
  { step | 0 ≤ step ∧ now / 30 - 1 ≤ step ∧ step ≤ now / 30 + 1 ∧
    IsCode (stripped text) (hotp key step.toNat) }

section Steps

variable {hotp : Bytes → Nat → Nat} {secret text : String} {key : Bytes}
  {now step : Int}

theorem verify_eq_some (decoded : base32Decode secret = some key) :
    verify hotp secret text now = some step ↔
      IsLeast (goodSteps hotp key text now) step := by
  have current : Int.fdiv now stepSecs = now / 30 :=
    Int.fdiv_eq_ediv_of_nonneg now (by decide)
  rw [verify]
  split
  · next malformed =>
      refine ⟨nofun, fun least => ?_⟩
      obtain ⟨bytes, all⟩ := least.1.2.2.2.passes
      rcases malformed with long | letter
      · exact absurd bytes long
      · exact absurd all letter
  · have sorted : [now / 30 - skewSteps, now / 30,
        now / 30 + skewSteps].Pairwise (· < ·) := by
      simp only [skewSteps, List.pairwise_cons, List.mem_cons,
        List.not_mem_nil, or_false, forall_eq_or_imp, forall_eq]
      exact ⟨⟨by omega, by omega⟩, by omega, nofun, .nil⟩
    have same : { step | step ∈ [now / 30 - skewSteps, now / 30,
        now / 30 + skewSteps] ∧ (decide (0 ≤ step) &&
          Tracker.constantTimeEq (codeFor hotp key step.toNat)
            (stripped text)) = true } = goodSteps hotp key text now := by
      ext step
      simp only [goodSteps, Set.mem_ofPred_eq, Bool.and_eq_true,
        decide_eq_true_eq, Tracker.constantTimeEq_iff, isCode_iff,
        List.mem_cons, List.not_mem_nil, or_false, skewSteps]
      constructor
      · rintro ⟨near, low, code⟩
        exact ⟨low, by omega, by omega, code⟩
      · rintro ⟨low, above, below, code⟩
        exact ⟨by omega, low, code⟩
    rw [decoded, Option.bind_some, current, ← same]
    exact find?_eq_some_iff_isLeast sorted

theorem verify_eq_none (decoded : base32Decode secret = some key) :
    verify hotp secret text now = none ↔
      goodSteps hotp key text now = ∅ := by
  constructor
  · intro refused
    by_contra some_
    obtain ⟨step, least, first⟩ := Int.exists_least_of_bdd
      ⟨0, fun step good => good.1⟩ (Set.nonempty_iff_ne_empty.mpr some_)
    have verified := (verify_eq_some decoded).mpr ⟨least, first⟩
    rw [refused] at verified
    cases verified
  · intro none_
    cases verified : verify hotp secret text now with
    | none => rfl
    | some step =>
      have good := ((verify_eq_some decoded).mp verified).1
      rw [none_] at good
      cases good

end Steps

/-- Secrets are read back however they are spelled, a text is good for the
first step whose code it is, and no code is read outside of its digest. -/
theorem codes_are_one_time (sha1 : Bytes → Digest) :
    (∀ bytes text, Respelled (base32Encode bytes).toList text.toList →
      base32Decode text = some bytes) ∧
      (∀ secret, isValidSecret secret = true → ∃ key,
        base32Decode secret = some key ∧ key.length = secretBytes ∧
          ∀ text now,
            (∀ step, verify (hotp sha1) secret text now = some step ↔
              IsLeast (goodSteps (hotp sha1) key text now) step) ∧
            (verify (hotp sha1) secret text now = none ↔
              goodSteps (hotp sha1) key text now = ∅)) ∧
        ∀ mac : Digest, (truncated mac.1).isSome = true := by
  refine ⟨fun bytes text respelled => base32Decode_respelled respelled, ?_,
    truncated_isSome⟩
  intro secret valid
  rw [isValidSecret, Option.any_eq_true] at valid
  obtain ⟨key, decoded, length⟩ := valid
  exact ⟨key, decoded, of_decide_eq_true length, fun text now =>
    ⟨fun step => verify_eq_some decoded, verify_eq_none decoded⟩⟩

end Totp

end Sharerr
