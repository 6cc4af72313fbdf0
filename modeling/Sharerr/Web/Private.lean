import Sharerr.Rust.Words
import Sharerr.Tracker.Swarms
import Sharerr.Web.Ranges

/-!
# Private addresses

What is private is documented by its blocks.  The predicate knows them in one
spelling, without the link-local block of IPv6, and of the three callers one
asks it about the canonical address.
-/

namespace Sharerr

namespace Web

open Rust (IpAddr)
open Announce (SocketAddr isPrivateIp AnnounceRequest)

/-- The refusal for a caller not on a private address. -/
def refusePublic (remote : SocketAddr) : Option (Nat × String) :=
  if isPrivateIp remote.ip then none else some (403, "refused")

inductive AdvertisedHostError where
  /-- `should be a bare host name or address` -/
  | notBare (host : String)
  /-- `contains whitespace` -/
  | whitespace (host : String)
  /-- `should not carry a port` -/
  | port (host : String)
  /-- `only resolves on this machine` -/
  | localhost (host : String)
  /-- `is a loopback or private address` -/
  | private_ (host : String)
deriving DecidableEq, Repr

def trimBrackets : String → String :=
  Rust.trimMatches fun character => character = '[' || character = ']'

/-- A bare host that others can reach; the first fault found is told. -/
def validateAdvertisedHost (host : String) :
    Except AdvertisedHostError Unit :=
  if "://".toList <:+: host.toList ∨ '/' ∈ host.toList then
    .error (.notBare host)
  else if host.toList.any Rust.isWhitespace then .error (.whitespace host)
  else if ':' ∈ host.toList ∧
      ¬ (host.toList.head? = some '[' ∧ host.toList.getLast? = some ']') then
    .error (.port host)
  else if Rust.eqIgnoreAsciiCase host "localhost" then .error (.localhost host)
  else if (IpAddr.parse (trimBrackets host)).any isPrivateIp then
    .error (.private_ host)
  else .ok ()

/-- RFC 1918, loopback and link-local. -/
def privateV4 : List (BitVec 32 × Nat) :=
  [(0x0A000000#32, 8), (0xAC100000#32, 12), (0xC0A80000#32, 16),
    (0x7F000000#32, 8), (0xA9FE0000#32, 16)]

/-- Loopback and unique-local. -/
def privateV6 : List (BitVec 128 × Nat) :=
  [(1#128, 128), (0xFC00#128 <<< 112, 7)]

/-- `fe80::/10`. -/
def linkLocalV6 : BitVec 128 × Nat := (0xFE80#128 <<< 112, 10)

/-- An address of one of the documented blocks, in whatever spelling. -/
inductive IsPrivate (ip : IpAddr) : Prop where
  | v4 {network : BitVec 32} {bits : Nat} (block : (network, bits) ∈ privateV4)
      (agrees : IpRange.Agrees bits (.v4 network) ip.toCanonical)
  | v6 {network : BitVec 128} {bits : Nat}
      (block : (network, bits) ∈ privateV6)
      (agrees : IpRange.Agrees bits (.v6 network) ip.toCanonical)
  | linkLocal
      (agrees : IpRange.Agrees linkLocalV6.2 (.v6 linkLocalV6.1) ip.toCanonical)

section Blocks

theorem agrees_v4_iff {network ip : BitVec 32} {bits : Nat}
    (fits : bits ≤ 32) : IpRange.Agrees bits (.v4 network) (.v4 ip) ↔
      ip >>> (32 - bits) = network >>> (32 - bits) := by
  rw [IpRange.ushiftRight_inj_iff fits]
  constructor
  · rintro ⟨first⟩
    exact fun index low => (first index low).symm
  · exact fun first => .v4 fun index low => (first index low).symm

theorem agrees_v6_iff {network ip : BitVec 128} {bits : Nat}
    (fits : bits ≤ 128) : IpRange.Agrees bits (.v6 network) (.v6 ip) ↔
      ip >>> (128 - bits) = network >>> (128 - bits) := by
  rw [IpRange.ushiftRight_inj_iff fits]
  constructor
  · rintro (_ | ⟨first⟩)
    exact fun index low => (first index low).symm
  · exact fun first => .v6 fun index low => (first index low).symm

theorem and_mask (bits : BitVec 128) :
    bits >>> 112 &&& 0xFE00#128 = (bits >>> 121) <<< 9 := by
  have mask : ∀ index < 128, (0xFE00#128).getLsbD index =
      (decide (9 ≤ index) && decide (index < 16)) := by
    decide
  refine BitVec.eq_of_getLsbD_eq fun index inside => ?_
  rw [BitVec.getLsbD_and, BitVec.getLsbD_ushiftRight, mask index inside,
    BitVec.getLsbD_shiftLeft, BitVec.getLsbD_ushiftRight,
    decide_eq_true inside, Bool.true_and]
  by_cases low : index < 9
  · rw [decide_eq_true low, decide_eq_false (Nat.not_le_of_lt low)]
    simp
  · rw [decide_eq_false low, decide_eq_true (Nat.le_of_not_lt low),
      show 121 + (index - 9) = 112 + index by omega]
    by_cases below : index < 16
    · simp [below]
    · rw [BitVec.getLsbD_of_ge bits _ (by omega)]
      rfl

theorem first_segment_iff (bits : BitVec 128) :
    bits >>> 112 &&& 0xFE00#128 = 0xFC00#128 ↔ bits >>> 121 = 126#128 := by
  have small : (bits >>> 121).toNat < 128 := by
    rw [BitVec.toNat_ushiftRight, Nat.shiftRight_eq_div_pow]
    have range := bits.isLt
    omega
  rw [and_mask]
  generalize bits >>> 121 = first at small
  constructor
  · intro same
    have number := congrArg BitVec.toNat same
    rw [BitVec.toNat_shiftLeft, Nat.shiftLeft_eq] at number
    refine BitVec.eq_of_toNat_eq ?_
    simp only [BitVec.toNat_ofNat] at number ⊢
    omega
  · rintro rfl
    rfl

theorem isPrivateIp_v4 (bits : BitVec 32) : isPrivateIp (.v4 bits) = true ↔
    ∃ block ∈ privateV4, IpRange.Agrees block.2 (.v4 block.1) (.v4 bits) := by
  simp only [privateV4, List.mem_cons, List.not_mem_nil, or_false,
    exists_eq_or_imp, exists_eq_left]
  rw [agrees_v4_iff (by decide), agrees_v4_iff (by decide),
    agrees_v4_iff (by decide), agrees_v4_iff (by decide),
    agrees_v4_iff (by decide), isPrivateIp]
  simp only [Bool.or_eq_true, decide_eq_true_eq, or_assoc]
  rfl

theorem isPrivateIp_v6 (bits : BitVec 128) : isPrivateIp (.v6 bits) = true ↔
    ∃ block ∈ privateV6, IpRange.Agrees block.2 (.v6 block.1) (.v6 bits) := by
  simp only [privateV6, List.mem_cons, List.not_mem_nil, or_false,
    exists_eq_or_imp, exists_eq_left]
  rw [agrees_v6_iff (by decide), agrees_v6_iff (by decide), isPrivateIp]
  simp only [Bool.or_eq_true, decide_eq_true_eq]
  rw [first_segment_iff, Nat.sub_self, BitVec.ushiftRight_zero,
    BitVec.ushiftRight_zero]
  rfl

/-- An address is private where its canonical form is known, or in the block
that is not. -/
theorem isPrivate_iff {ip : IpAddr} : IsPrivate ip ↔
    isPrivateIp ip.toCanonical = true ∨
      IpRange.Agrees linkLocalV6.2 (.v6 linkLocalV6.1) ip.toCanonical := by
  constructor
  · intro isPrivate
    cases same : ip.toCanonical with
    | v4 bits =>
      cases isPrivate with
      | v4 block agrees =>
        rw [same] at agrees
        exact .inl ((isPrivateIp_v4 bits).mpr ⟨_, block, agrees⟩)
      | v6 block agrees =>
        rw [same] at agrees
        cases agrees
      | linkLocal agrees =>
        rw [same] at agrees
        cases agrees
    | v6 bits =>
      cases isPrivate with
      | v4 block agrees =>
        rw [same] at agrees
        cases agrees
      | v6 block agrees =>
        rw [same] at agrees
        exact .inl ((isPrivateIp_v6 bits).mpr ⟨_, block, agrees⟩)
      | linkLocal agrees =>
        rw [same] at agrees
        exact .inr agrees
  · rintro (known | agrees)
    · cases same : ip.toCanonical with
      | v4 bits =>
        rw [same] at known
        obtain ⟨block, member, agrees⟩ := (isPrivateIp_v4 bits).mp known
        rw [← same] at agrees
        exact .v4 member agrees
      | v6 bits =>
        rw [same] at known
        obtain ⟨block, member, agrees⟩ := (isPrivateIp_v6 bits).mp known
        rw [← same] at agrees
        exact .v6 member agrees
    · exact .linkLocal agrees

theorem isPrivateIp_unknown {bits : BitVec 128} (first : bits >>> 121 ≠ 126#128)
    (high : bits >>> 32 ≠ 0#128) : isPrivateIp (.v6 bits) = false := by
  rw [isPrivateIp, Bool.or_eq_false_iff, decide_eq_false_iff_not,
    decide_eq_false_iff_not, first_segment_iff]
  refine ⟨?_, first⟩
  rintro rfl
  exact high rfl

theorem isPrivateIp_mapped {ip : IpAddr} (mapped : ip ≠ ip.toCanonical) :
    isPrivateIp ip = false := by
  cases ip with
  | v4 bits => exact absurd rfl mapped
  | v6 bits =>
    rw [IpAddr.toCanonical] at mapped
    split at mapped
    · next high =>
        refine isPrivateIp_unknown ?_ ?_
        · rw [BitVec.shiftRight_add bits 32 89, high]
          decide
        · rw [high]
          decide
    · exact absurd rfl mapped

theorem isPrivateIp_linkLocal {ip : IpAddr}
    (agrees : IpRange.Agrees linkLocalV6.2 (.v6 linkLocalV6.1) ip) :
    isPrivateIp ip = false ∧ ip.toCanonical = ip := by
  cases ip with
  | v4 bits => cases agrees
  | v6 bits =>
    have first : bits >>> 118 = 0x3FA#128 :=
      (agrees_v6_iff (by decide)).mp agrees
    have segments : bits >>> 118 = bits >>> 32 >>> 86 :=
      BitVec.shiftRight_add bits 32 86
    constructor
    · refine isPrivateIp_unknown ?_ fun zero => ?_
      · rw [BitVec.shiftRight_add bits 118 3, first]
        decide
      · rw [segments, zero] at first
        exact absurd first (by decide)
    · rw [IpAddr.toCanonical]
      refine if_neg fun mapped => ?_
      rw [segments, mapped] at first
      exact absurd first (by decide)

end Blocks

/-- The predicate is the documented one in this spelling of the address, and
what asks it decides alike. -/
structure IsConsistent (ip : IpAddr) : Prop where
  spelling : isPrivateIp ip = isPrivateIp ip.toCanonical
  documented : IsPrivate ip → isPrivateIp ip = true
  /-- A neighbour is let through. -/
  neighbour : IsPrivate ip → ∀ port, refusePublic ⟨ip, port⟩ = none
  /-- No friend is told a host that is a private address. -/
  literal : IsPrivate ip → ∀ host, IpAddr.parse (trimBrackets host) = some ip →
    ∃ error, validateAdvertisedHost host = .error error
  /-- Who may declare an address is who is let through. -/
  declared : ∀ port (request : AnnounceRequest) declared,
    request.declaredIp = some declared →
      declared.toCanonical ≠ ip.toCanonical →
        ((request.resolveAddr ip).ip = declared.toCanonical ↔
          refusePublic ⟨ip, port⟩ = none)
  /-- Nobody who is let through comes from a host that may be advertised. -/
  apart : ∀ port host, IpAddr.parse (trimBrackets host) = some ip →
    validateAdvertisedHost host = .ok () → refusePublic ⟨ip, port⟩ ≠ none

/-- IPv4 in the other spelling, or the link-local block of IPv6. -/
def IsMissed (ip : IpAddr) : Prop :=
  (ip ≠ ip.toCanonical ∧ IsPrivate ip) ∨
    IpRange.Agrees linkLocalV6.2 (.v6 linkLocalV6.1) ip

section Callers

variable {ip : IpAddr}

theorem refusePublic_eq_none (port : Nat) :
    refusePublic ⟨ip, port⟩ = none ↔ isPrivateIp ip = true := by
  rw [refusePublic]
  split <;> simp [*]

theorem isPrivateIp_of_validate {host : String}
    (literal : IpAddr.parse (trimBrackets host) = some ip)
    (valid : validateAdvertisedHost host = .ok ()) :
    isPrivateIp ip = false := by
  rw [validateAdvertisedHost, literal, Option.any_some] at valid
  split at valid
  · cases valid
  · split at valid
    · cases valid
    · split at valid
      · cases valid
      · split at valid
        · cases valid
        · split at valid
          · cases valid
          · next unknown => exact Bool.eq_false_of_not_eq_true unknown

theorem resolveAddr_declared {request : AnnounceRequest} {declared : IpAddr}
    (declares : request.declaredIp = some declared)
    (other : declared.toCanonical ≠ ip.toCanonical) :
    (request.resolveAddr ip).ip = declared.toCanonical ↔
      isPrivateIp ip.toCanonical = true := by
  rw [AnnounceRequest.resolveAddr, declares]
  dsimp only [Option.map_some]
  split
  · next known => exact iff_of_true rfl known
  · next unknown => exact iff_of_false other.symm unknown

/-- The address is treated as documented, and alike everywhere, where it is
neither of the missed ones. -/
theorem consistent_iff_not_missed (ip : IpAddr) :
    IsConsistent ip ↔ ¬ IsMissed ip := by
  constructor
  · rintro consistent (⟨mapped, isPrivate⟩ | agrees)
    · have known := consistent.documented isPrivate
      rw [isPrivateIp_mapped mapped] at known
      cases known
    · obtain ⟨unknown, canonical⟩ := isPrivateIp_linkLocal agrees
      rw [← canonical] at agrees
      have known := consistent.documented (.linkLocal agrees)
      rw [unknown] at known
      cases known
  · intro found
    obtain ⟨spelled, elsewhere⟩ := not_or.mp found
    have documented (isPrivate : IsPrivate ip) : isPrivateIp ip = true := by
      have canonical : ip = ip.toCanonical := by
        by_contra mapped
        exact spelled ⟨mapped, isPrivate⟩
      rcases isPrivate_iff.mp isPrivate with known | agrees
      · rwa [← canonical] at known
      · rw [← canonical] at agrees
        exact absurd agrees elsewhere
    have spelling : isPrivateIp ip = isPrivateIp ip.toCanonical := by
      by_cases mapped : ip = ip.toCanonical
      · rw [← mapped]
      · rw [isPrivateIp_mapped mapped]
        refine (Bool.eq_false_of_not_eq_true fun known => ?_).symm
        exact spelled ⟨mapped, isPrivate_iff.mpr (.inl known)⟩
    refine ⟨spelling, documented, ?_, ?_, ?_, ?_⟩
    · intro isPrivate port
      exact (refusePublic_eq_none port).mpr (documented isPrivate)
    · intro isPrivate host literal
      cases valid : validateAdvertisedHost host with
      | error error => exact ⟨error, rfl⟩
      | ok =>
        have unknown := isPrivateIp_of_validate literal valid
        rw [documented isPrivate] at unknown
        cases unknown
    · intro port request declared declares other
      rw [resolveAddr_declared declares other, refusePublic_eq_none, spelling]
    · intro port host literal valid passes
      have known := (refusePublic_eq_none port).mp passes
      rw [isPrivateIp_of_validate literal valid] at known
      cases known

/-- `::ffff:10.0.0.1` is a neighbour that is refused. -/
theorem mapped_not_consistent :
    ¬ IsConsistent (.v6 0xFFFF0A000001#128) := by
  intro consistent
  have same : isPrivateIp (.v6 0xFFFF0A000001#128) = true :=
    consistent.spelling.trans (by decide)
  cases same

end Callers

end Web

end Sharerr
