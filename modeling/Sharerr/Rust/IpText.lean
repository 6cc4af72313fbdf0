import Sharerr.Rust.Decimal
import Sharerr.Rust.IpAddr

/-!
# How addresses are printed

Four decimals with dots between them, or eight groups of hexadecimal digits
with the longest run of zeros left out.  The text is kept as its bytes.
-/

namespace Rust

def hexDigitByte (digit : Nat) : UInt8 :=
  UInt8.ofNat (if digit < 10 then 48 + digit else 87 + digit)

/-- `{:x}`. -/
def hexadecimal (number : Nat) : List UInt8 :=
  if number = 0 then [48]
  else ((Nat.digits 16 number).map hexDigitByte).reverse

namespace IpAddr

/-- `Ipv4Addr`'s `to_string`. -/
def v4Text (bits : Nat) : List UInt8 :=
  decimal (bits / 16777216 % 256) ++ 46 :: (decimal (bits / 65536 % 256) ++
    46 :: (decimal (bits / 256 % 256) ++ 46 :: decimal (bits % 256)))

/-- `Ipv6Addr::segments`. -/
def segments (bits : Nat) : List Nat :=
  (List.range 8).map fun index => bits / 65536 ^ (7 - index) % 65536

structure Span where
  start : Nat
  len : Nat

/-- One turn of the loop that looks for the longest run of zeros. -/
def spanStep (spans : Span × Span) (entry : Nat × Nat) : Span × Span :=
  let (longest, current) := spans
  if entry.1 = 0 then
    let current : Span :=
      ⟨if current.len = 0 then entry.2 else current.start, current.len + 1⟩
    (if longest.len < current.len then current else longest, current)
  else (longest, ⟨0, 0⟩)

def longestZeros (segments : List Nat) : Span :=
  (segments.zipIdx.foldl spanStep (⟨0, 0⟩, ⟨0, 0⟩)).1

/-- `fmt_subslice`. -/
def groupsText : List Nat → List UInt8
  | [] => []
  | [last] => hexadecimal last
  | first :: rest => hexadecimal first ++ 58 :: groupsText rest

/-- `Ipv6Addr`'s `to_string`. -/
def v6Text (bits : Nat) : List UInt8 :=
  if bits / 4294967296 = 65535 then
    [58, 58, 102, 102, 102, 102, 58] ++ v4Text (bits % 4294967296)
  else
    let groups := segments bits
    let zeros := longestZeros groups
    if 1 < zeros.len then
      groupsText (groups.take zeros.start) ++ [58, 58] ++
        groupsText (groups.drop (zeros.start + zeros.len))
    else groupsText groups

/-- `to_string`. -/
def text : IpAddr → List UInt8
  | v4 bits => v4Text bits.toNat
  | v6 bits => v6Text bits.toNat

theorem length_decimal_octet (number : Nat) :
    (decimal (number % 256)).length ≤ 3 := by
  have small : number % 256 < 10 ^ 3 := by omega
  have digits := (Nat.digits_length_le_iff (by decide) _).mpr small
  unfold decimal
  split
  · decide
  · simpa using digits

theorem length_v4Text (bits : Nat) : (v4Text bits).length ≤ 15 := by
  have first := length_decimal_octet (bits / 16777216)
  have second := length_decimal_octet (bits / 65536)
  have third := length_decimal_octet (bits / 256)
  have fourth := length_decimal_octet bits
  simp only [v4Text, List.length_append, List.length_cons]
  omega

theorem length_hexadecimal {number : Nat} (small : number < 65536) :
    (hexadecimal number).length ≤ 4 := by
  have digits : (Nat.digits 16 number).length ≤ 4 :=
    (Nat.digits_length_le_iff (by decide) _).mpr small
  unfold hexadecimal
  split
  · decide
  · simpa using digits

theorem length_groupsText {groups : List Nat}
    (small : ∀ group ∈ groups, group < 65536) :
    (groupsText groups).length ≤ 5 * groups.length := by
  induction groups with
  | nil => exact Nat.le_refl 0
  | cons first rest ih =>
    have here := length_hexadecimal (small first List.mem_cons_self)
    cases rest with
    | nil =>
      simp only [groupsText, List.length_singleton]
      omega
    | cons second rest =>
      have later := ih fun group member =>
        small group (List.mem_cons_of_mem _ member)
      simp only [groupsText, List.length_append, List.length_cons] at *
      omega

theorem segments_small (bits : Nat) :
    ∀ group ∈ segments bits, group < 65536 := by
  intro group member
  obtain ⟨index, -, rfl⟩ := List.mem_map.mp member
  exact Nat.mod_lt _ (by decide)

theorem length_segments (bits : Nat) : (segments bits).length = 8 := by
  simp [segments]

theorem length_v6Text (bits : Nat) : (v6Text bits).length ≤ 82 := by
  have v4 := length_v4Text (bits % 4294967296)
  have small := segments_small bits
  have eight := length_segments bits
  have part {groups : List Nat} (sub : groups.Sublist (segments bits)) :
      (groupsText groups).length ≤ 40 := by
    have short := length_groupsText fun group member =>
      small group (sub.subset member)
    have fewer := sub.length_le
    omega
  unfold v6Text
  split
  · simp only [List.length_append, List.length_cons, List.length_nil]
    omega
  · simp only
    split
    · have front := part (List.take_sublist
        (longestZeros (segments bits)).start (segments bits))
      have back := part (List.drop_sublist
        ((longestZeros (segments bits)).start +
          (longestZeros (segments bits)).len) (segments bits))
      simp only [List.length_append, List.length_cons, List.length_nil]
      omega
    · have whole := part (List.Sublist.refl _)
      omega

theorem length_text (address : IpAddr) : address.text.length ≤ 82 := by
  cases address with
  | v4 bits => exact Nat.le_trans (length_v4Text _) (by decide)
  | v6 bits => exact length_v6Text _

end IpAddr

end Rust
