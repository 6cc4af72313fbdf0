import Sharerr.Rust.IpRead
import Sharerr.Rust.Padded
import Sharerr.Web.Forwarded

/-!
# Blocks of addresses

A trusted range is written as an address with the length of its prefix, and is
compared by shifting out all bits but those of the prefix.  At a length of
zero that is all of them, which a shift of its own would not do.
-/

namespace Sharerr

namespace Web

namespace IpRange

open Rust (IpAddr)

inductive ParseError where
  /-- `is not an IP address or CIDR block` -/
  | notAddress (raw : String)
  /-- `has a prefix length outside 0-{max}` -/
  | outside (raw : String) (max : Nat)
deriving DecidableEq, Repr

/-- What stands before the slash, and what stands behind one. -/
def halves (raw : String) : String × Option String :=
  match Rust.splitOnce (· = '/') (Rust.trim raw) with
  | some (addr, bits) => (addr, some bits)
  | none => (Rust.trim raw, none)

/-- The length behind the slash, which an address without one has all of. -/
def length (raw : String) (max : Nat) : Option String →
    Except ParseError { bits : Nat // bits ≤ max }
  | none => .ok ⟨max, Nat.le_refl max⟩
  | some bits =>
    match Rust.parseUnsigned 256 bits with
    | none => .error (.outside raw max)
    | some bits =>
      if fits : bits ≤ max then .ok ⟨bits, fits⟩
      else .error (.outside raw max)

def fromStr (raw : String) : Except ParseError IpRange :=
  match IpAddr.parse (halves raw).1 with
  | none => .error (.notAddress raw)
  | some ip =>
    (length raw ip.toCanonical.width (halves raw).2).map fun bits =>
      ⟨ip.toCanonical, bits.1, bits.2⟩

/-- `Display`. -/
def display (range : IpRange) : String :=
  if range.bits = range.network.width then range.network.display
  else range.network.display ++ "/" ++ toString range.bits

/-- A subtraction of `u32`s, which is a panic below zero. -/
def checkedSub (left right : Nat) : Option Nat :=
  if right ≤ left then some (left - right) else none

/-- `checked_shr`, which refuses to shift by as many bits as there are. -/
def checkedShr {width : Nat} (bits : BitVec width) (shift : Nat) :
    Option (BitVec width) :=
  if shift < width then some (bits >>> shift) else none

/-- `contains` in the source's own steps; nothing where one of them panics. -/
def containsChecked (range : IpRange) (ip : IpAddr) : Option Bool :=
  match range.network, ip.toCanonical with
  | .v4 network, .v4 ip => do
      let shift ← checkedSub 32 range.bits
      return decide ((checkedShr network shift).getD 0 =
        (checkedShr ip shift).getD 0)
  | .v6 network, .v6 ip => do
      let shift ← checkedSub 128 range.bits
      return decide ((checkedShr network shift).getD 0 =
        (checkedShr ip shift).getD 0)
  | _, _ => some false

/-- Addresses of one family that agree on their first bits. -/
inductive Agrees (count : Nat) : IpAddr → IpAddr → Prop where
  | v4 {network ip : BitVec 32}
      (first : ∀ index < count, network.getMsbD index = ip.getMsbD index) :
      Agrees count (.v4 network) (.v4 ip)
  | v6 {network ip : BitVec 128}
      (first : ∀ index < count, network.getMsbD index = ip.getMsbD index) :
      Agrees count (.v6 network) (.v6 ip)

section Shifts

theorem checkedShr_getD {width : Nat} (bits : BitVec width) (shift : Nat) :
    (checkedShr bits shift).getD 0 = bits >>> shift := by
  rw [checkedShr]
  split
  · rfl
  · next wide =>
      exact (BitVec.ushiftRight_eq_zero (Nat.le_of_not_lt wide)).symm

theorem checkedSub_fits {left right : Nat} (fits : right ≤ left) :
    checkedSub left right = some (left - right) :=
  if_pos fits

theorem ushiftRight_inj_iff {width count : Nat} {left right : BitVec width}
    (fits : count ≤ width) :
    left >>> (width - count) = right >>> (width - count) ↔
      ∀ index < count, left.getMsbD index = right.getMsbD index := by
  constructor
  · intro same index low
    have shifted := congrArg
      (fun bits => bits.getMsbD (index + (width - count))) same
    simp only [BitVec.getMsbD_ushiftRight] at shifted
    have inside : index + (width - count) < width := by omega
    have kept : ¬ index + (width - count) < width - count := by omega
    rw [decide_eq_true inside, decide_eq_false kept, Nat.add_sub_cancel]
      at shifted
    exact shifted
  · intro first
    refine BitVec.eq_of_getMsbD_eq fun index inside => ?_
    rw [BitVec.getMsbD_ushiftRight, BitVec.getMsbD_ushiftRight]
    by_cases zero : index < width - count
    · rw [decide_eq_true zero]
      rfl
    · rw [first _ (by omega)]

variable {range : IpRange} {ip : IpAddr}

theorem containsChecked_eq (range : IpRange) (ip : IpAddr) :
    range.containsChecked ip = some (range.contains ip) := by
  obtain ⟨network, bits, fits⟩ := range
  rw [containsChecked, contains]
  cases network with
  | v4 network =>
    cases ip.toCanonical with
    | v4 ip =>
      simp only [checkedSub_fits (show bits ≤ 32 from fits),
        checkedShr_getD, Option.bind_eq_bind, Option.bind_some,
        Option.pure_def]
    | v6 ip => rfl
  | v6 network =>
    cases ip.toCanonical with
    | v4 ip => rfl
    | v6 ip =>
      simp only [checkedSub_fits (show bits ≤ 128 from fits),
        checkedShr_getD, Option.bind_eq_bind, Option.bind_some,
        Option.pure_def]

theorem contains_iff_agrees : range.contains ip = true ↔
    Agrees range.bits range.network ip.toCanonical := by
  obtain ⟨network, bits, fits⟩ := range
  rw [contains]
  cases network with
  | v4 network =>
    cases ip.toCanonical with
    | v4 ip =>
      refine decide_eq_true_iff.trans ((ushiftRight_inj_iff fits).trans ?_)
      exact ⟨.v4, fun | .v4 first => first⟩
    | v6 ip => exact ⟨nofun, nofun⟩
  | v6 network =>
    cases ip.toCanonical with
    | v4 ip => exact ⟨nofun, nofun⟩
    | v6 ip =>
      refine decide_eq_true_iff.trans ((ushiftRight_inj_iff fits).trans ?_)
      exact ⟨.v6, fun | .v6 first => first⟩

end Shifts

section Text

variable {raw : String} {range : IpRange}

/-- A length is read where it fits, and is the whole one where it is left
out. -/
theorem length_eq_ok {max : Nat} {text : Option String}
    {bits : { bits : Nat // bits ≤ max }} :
    length raw max text = .ok bits ↔
      match text with
      | none => bits.1 = max
      | some text => Rust.IsNumber text bits.1 ∧ bits.1 < 256 := by
  obtain ⟨bits, fits⟩ := bits
  cases text with
  | none =>
    rw [length, Except.ok.injEq, Subtype.mk.injEq]
    exact eq_comm
  | some text =>
    rw [length]
    dsimp only
    rw [← Rust.parseUnsigned_eq_some]
    cases Rust.parseUnsigned 256 text with
    | none => exact ⟨nofun, nofun⟩
    | some number =>
      dsimp only
      rw [Option.some.injEq]
      constructor
      · intro read
        split at read
        · cases read
          rfl
        · cases read
      · rintro rfl
        exact dif_pos fits

theorem fromStr_eq_ok : fromStr raw = .ok range ↔
    ∃ ip, IpAddr.parse (halves raw).1 = some ip ∧
      ∃ bits, length raw ip.toCanonical.width (halves raw).2 = .ok bits ∧
        range = ⟨ip.toCanonical, bits.1, bits.2⟩ := by
  unfold fromStr
  cases IpAddr.parse (halves raw).1 with
  | none => exact ⟨nofun, fun ⟨_, read, _⟩ => nomatch read⟩
  | some ip =>
    constructor
    · intro read
      refine ⟨ip, rfl, ?_⟩
      dsimp only at read
      cases found : length raw ip.toCanonical.width (halves raw).2 with
      | error error =>
        rw [found] at read
        cases read
      | ok bits =>
        rw [found] at read
        cases read
        exact ⟨bits, rfl, rfl⟩
    · rintro ⟨_, ⟨⟩, bits, found, rfl⟩
      dsimp only
      rw [found]
      rfl

theorem fromStr_outside {address bits : String} {number : Nat}
    {ip : IpAddr} (split_ : Rust.splitOnce (· = '/') (Rust.trim raw) =
      some (address, bits)) (isNumber : Rust.IsNumber bits number)
    (parsed : IpAddr.parse address = some ip)
    (long : ip.toCanonical.width < number) :
    fromStr raw = .error (.outside raw ip.toCanonical.width) := by
  have refused : length raw ip.toCanonical.width (some bits) =
      .error (.outside raw ip.toCanonical.width) := by
    rw [length]
    split
    · rfl
    · next other read =>
        obtain ⟨isOther, -⟩ := Rust.parseUnsigned_eq_some.mp read
        rw [isOther.unique isNumber]
        exact dif_neg (Nat.not_le_of_lt long)
  unfold fromStr
  rw [halves, split_]
  dsimp only
  rw [parsed]
  dsimp only
  rw [refused]
  rfl

theorem trim_display (range : IpRange) :
    Rust.trim range.display = range.display := by
  have plain : ∀ character ∈ range.display.toList,
      Rust.isWhitespace character = false := by
    intro character member
    rw [display] at member
    split at member
    · exact (IpAddr.isAddressChar_plain (IpAddr.mem_display member)).1
    · rw [String.toList_append, String.toList_append, List.mem_append,
        List.mem_append] at member
      rcases member with (network | slash) | bits
      · exact (IpAddr.isAddressChar_plain (IpAddr.mem_display network)).1
      · rw [List.mem_singleton.mp slash]
        decide
      · exact Rust.isWhitespace_of_isAlphanum
          ((Rust.isNumeral_toString _).alphanum bits)
  exact (Rust.IsTrimmed.of_plain plain).trim_eq

theorem halves_display (range : IpRange) : halves range.display =
    (range.network.display, if range.bits = range.network.width then none
      else some (toString range.bits)) := by
  have plain : ∀ character ∈ range.network.display.toList,
      decide (character = '/') = false := fun character member =>
    decide_eq_false (IpAddr.isAddressChar_plain (IpAddr.mem_display member)).2
  rw [halves, trim_display, display]
  by_cases whole : range.bits = range.network.width
  · rw [if_pos whole, if_pos whole]
    cases split_ : Rust.splitOnce (· = '/') range.network.display with
    | none => rfl
    | some parts =>
      obtain ⟨mark, slash, text, -⟩ := Rust.splitOnce_eq_some.mp split_
      have member : mark ∈ range.network.display.toList := by
        rw [text]
        exact List.mem_append_right _ List.mem_cons_self
      rw [plain mark member] at slash
      cases slash
  · rw [if_neg whole, if_neg whole]
    have split_ : Rust.splitOnce (· = '/')
        (range.network.display ++ "/" ++ toString range.bits) =
          some (range.network.display, toString range.bits) := by
      refine Rust.splitOnce_eq_some.mpr ⟨'/', rfl, ?_, plain⟩
      rw [String.toList_append, String.toList_append, List.append_assoc]
      rfl
    rw [split_]

/-- A printed range is read back, where its network is in canonical form. -/
theorem fromStr_display (canonical : range.network.toCanonical =
    range.network) : fromStr range.display = .ok range := by
  obtain ⟨network, bits, fits⟩ := range
  dsimp only at canonical
  have fits_ : bits ≤ network.toCanonical.width := by
    rw [canonical]
    exact fits
  rw [fromStr_eq_ok, halves_display]
  refine ⟨network, IpAddr.parse_display canonical, ⟨bits, fits_⟩, ?_, ?_⟩
  · rw [length_eq_ok]
    dsimp only
    by_cases whole : bits = network.width
    · rw [if_pos whole]
      dsimp only
      rw [canonical, whole]
    · rw [if_neg whole]
      refine ⟨.inl (Rust.isNumeral_toString bits), ?_⟩
      have most : network.width ≤ 128 := by
        cases network with
        | v4 => exact (by decide : 32 ≤ 128)
        | v6 => exact Nat.le_refl 128
      omega
  · simp only [canonical]

end Text

/-- What is read as a range holds the addresses that agree with its network on
the first bits, by steps that do not panic, and is printed as a text that is
read as it again; a length the family does not have is refused. -/
theorem fromStr_means (raw : String) :
    (∀ range, fromStr raw = .ok range →
      (∀ ip, range.containsChecked ip = some (range.contains ip) ∧
        (range.contains ip = true ↔
          Agrees range.bits range.network ip.toCanonical)) ∧
        fromStr range.display = .ok range) ∧
      ∀ address bits number ip, Rust.splitOnce (· = '/') (Rust.trim raw) =
          some (address, bits) → Rust.IsNumber bits number →
        IpAddr.parse address = some ip → ip.toCanonical.width < number →
          fromStr raw = .error (.outside raw ip.toCanonical.width) := by
  refine ⟨fun range read => ⟨fun ip => ?_, ?_⟩, ?_⟩
  · exact ⟨containsChecked_eq range ip, contains_iff_agrees⟩
  · obtain ⟨ip, -, bits, -, rfl⟩ := fromStr_eq_ok.mp read
    exact fromStr_display ip.toCanonical_toCanonical
  · intro address bits number ip split_ isNumber parsed long
    exact fromStr_outside split_ isNumber parsed long

end IpRange

end Web

end Sharerr
