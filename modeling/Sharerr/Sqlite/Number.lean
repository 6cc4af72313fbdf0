import Mathlib.Data.Nat.Log
import Mathlib.Tactic.NormNum
import Mathlib.Tactic.Positivity
import Sharerr.Rust.Basic

/-!
# Numbers in SQLite

Integers of 64 bits and double-precision floats, and the addition that goes
from the one to the other where a sum overflows.  The floats here are whole
numbers, as sums of whole numbers are.
-/

namespace Sqlite

/-- The distance between the doubles around a whole number. -/
def spacing (value : Nat) : Nat := 2 ^ (Nat.log 2 value - 52)

/-- The double nearest to a whole number, the even one of two as near. -/
def nearestDouble (value : Nat) : Nat :=
  let quotient := value / spacing value
  let rest := value % spacing value
  if 2 * rest < spacing value ∨
      2 * rest = spacing value ∧ quotient % 2 = 0 then
    quotient * spacing value
  else (quotient + 1) * spacing value

/-- `SQLITE_INTEGER` and `SQLITE_FLOAT`. -/
inductive Number where
  | integer (value : Int)
  | real (value : Int)
deriving DecidableEq, Repr

def toDouble (value : Int) : Int :=
  value.sign * nearestDouble value.natAbs

namespace Number

def asDouble : Number → Int
  | integer value => toDouble value
  | real value => value

/-- The `+` of an expression: integers whose sum overflows are added as
floats. -/
def add : Number → Number → Number
  | integer left, integer right =>
    if Rust.i64Min ≤ left + right ∧ left + right ≤ Rust.i64Max then
      integer (left + right)
    else real (toDouble (toDouble left + toDouble right))
  | left, right => real (toDouble (left.asDouble + right.asDouble))

/-- What a column declared `INTEGER` makes of a number: a float that is an
integer well inside the range is stored as one. -/
def inIntegerColumn : Number → Number
  | integer value => integer value
  | real value =>
    if Rust.i64Min < value ∧ value < Rust.i64Max then integer value
    else real value

/-- The decoding of an `i64`, which takes no float. -/
def decodeI64 : Number → Option Int
  | integer value => some value
  | real _ => none

end Number

theorem spacing_dvd_nearestDouble (value : Nat) :
    spacing value ∣ nearestDouble value := by
  unfold nearestDouble
  dsimp only
  split
  · exact Nat.dvd_mul_left _ _
  · exact Nat.dvd_mul_left _ _

theorem le_nearestDouble_add_spacing (value : Nat) :
    2 * value ≤ 2 * nearestDouble value + spacing value := by
  have whole := Nat.div_add_mod' value (spacing value)
  have below : value % spacing value < spacing value :=
    Nat.mod_lt _ (by unfold spacing; positivity)
  unfold nearestDouble
  dsimp only
  split
  · omega
  · rw [Nat.add_one_mul (value / spacing value)]
    omega

theorem pow_le_nearestDouble {exponent value : Nat}
    (atLeast : 2 ^ exponent ≤ value) : 2 ^ exponent ≤ nearestDouble value := by
  have nonzero : value ≠ 0 := by
    have : 0 < 2 ^ exponent := by positivity
    omega
  have inLog : exponent ≤ Nat.log 2 value :=
    (Nat.le_log_iff_pow_le (by decide) nonzero).mpr atLeast
  have divides : spacing value ∣ 2 ^ Nat.log 2 value :=
    pow_dvd_pow 2 (by omega)
  have down : value / spacing value * spacing value ≤ nearestDouble value := by
    unfold nearestDouble
    dsimp only
    split
    · exact le_refl _
    · exact Nat.mul_le_mul_right _ (Nat.le_succ _)
  calc 2 ^ exponent
      ≤ 2 ^ Nat.log 2 value := Nat.pow_le_pow_right (by decide) inLog
    _ = 2 ^ Nat.log 2 value / spacing value * spacing value :=
        (Nat.div_mul_cancel divides).symm
    _ ≤ value / spacing value * spacing value :=
        Nat.mul_le_mul_right _
          (Nat.div_le_div_right (Nat.pow_log_le_self 2 nonzero))
    _ ≤ nearestDouble value := down

theorem le_nearestDouble_of_close {value : Nat}
    (close : 2 ^ 63 - 512 ≤ value) : 2 ^ 63 ≤ nearestDouble value := by
  by_cases reached : 2 ^ 63 ≤ value
  · exact pow_le_nearestDouble reached
  · have log : Nat.log 2 value = 62 :=
      (Nat.log_eq_iff (.inl (by decide))).mpr (by omega)
    have step : spacing value = 1024 := by
      rw [spacing, log]
      rfl
    unfold nearestDouble
    rw [step]
    dsimp only
    split
    · omega
    · omega

/-- Two integers whose sum is past the range are so as doubles too: what their
roundings lose, the rounding of the sum gives back. -/
theorem le_nearestDouble_add {left right : Nat} (ordered : right ≤ left)
    (leftSmall : left < 2 ^ 63) (overflows : 2 ^ 63 ≤ left + right) :
    2 ^ 63 ≤ nearestDouble (nearestDouble left + nearestDouble right) := by
  apply le_nearestDouble_of_close
  have leftLarge : 2 ^ 62 ≤ left := by omega
  have leftStep : spacing left = 2 ^ 10 := by
    rw [spacing, (Nat.log_eq_iff (.inl (by decide))).mpr ⟨leftLarge, leftSmall⟩]
  have leftLost := le_nearestDouble_add_spacing left
  rw [leftStep] at leftLost
  by_cases rightLarge : 2 ^ 62 ≤ right
  · have first := pow_le_nearestDouble leftLarge
    have second := pow_le_nearestDouble rightLarge
    omega
  · -- both roundings are multiples of the smaller spacing, and so is the sum
    have small : Nat.log 2 right - 52 ≤ 9 := by
      have := Nat.log_lt_of_lt_pow' (b := 2) (x := 62) (y := right) (by decide)
        (by omega)
      omega
    have half : spacing right ∣ 2 ^ 9 := pow_dvd_pow 2 small
    have rightLost := le_nearestDouble_add_spacing right
    have leftWhole : spacing right ∣ nearestDouble left := by
      have := spacing_dvd_nearestDouble left
      rw [leftStep] at this
      exact (half.trans (pow_dvd_pow 2 (by decide))).trans this
    have whole : spacing right ∣ nearestDouble left + nearestDouble right :=
      Nat.dvd_add leftWhole (spacing_dvd_nearestDouble right)
    have bound : spacing right ≤ 2 ^ 9 := Nat.le_of_dvd (by decide) half
    by_contra tooSmall
    have gap : spacing right ∣
        2 ^ 63 - 2 ^ 9 - (nearestDouble left + nearestDouble right) :=
      Nat.dvd_sub (Nat.dvd_sub (half.trans (pow_dvd_pow 2 (by decide))) half)
        whole
    have atLeast := Nat.le_of_dvd (by omega) gap
    omega

theorem toDouble_natCast (value : Nat) :
    toDouble value = nearestDouble value := by
  rcases Nat.eq_zero_or_pos value with rfl | positive
  · rfl
  · rw [toDouble, Int.sign_eq_one_of_pos (by omega), Int.natAbs_natCast,
      one_mul]

/-- A column that has counted `total`: an integer while that fits, a float
past the range from then on. -/
def Counts (total : Nat) (number : Number) : Prop :=
  if (total : Int) ≤ Rust.i64Max then number = .integer total
  else ∃ value : Nat, 2 ^ 63 ≤ value ∧ number = .real value

theorem Counts.decode_iff {total : Nat} {number : Number}
    (counts : Counts total number) {value : Int} :
    number.decodeI64 = some value ↔
      (total : Int) ≤ Rust.i64Max ∧ value = total := by
  unfold Counts at counts
  split at counts
  · rename_i fits
    rw [counts, Number.decodeI64]
    simp [fits, eq_comm]
  · rename_i overflows
    obtain ⟨_, -, rfl⟩ := counts
    simp [Number.decodeI64, overflows]

/-- A column goes on counting when a counter is added to it. -/
theorem Counts.add {total more : Nat} {number : Number}
    (counts : Counts total number) (fits : (more : Int) ≤ Rust.i64Max) :
    Counts (total + more)
      ((number.add (.integer more)).inIntegerColumn) := by
  have max : Rust.i64Max = 2 ^ 63 - 1 := by decide
  unfold Counts at counts ⊢
  split at counts
  · rename_i before
    subst counts
    by_cases after : ((total + more : Nat) : Int) ≤ Rust.i64Max
    · have inRange : Rust.i64Min ≤ (total : Int) + more ∧
          (total : Int) + more ≤ Rust.i64Max := by
        have : Rust.i64Min ≤ 0 := by decide
        omega
      rw [if_pos after, Number.add, if_pos inRange, Number.inIntegerColumn]
      push_cast
      rfl
    · have outside : ¬ (Rust.i64Min ≤ (total : Int) + more ∧
          (total : Int) + more ≤ Rust.i64Max) := by omega
      have overflows : 2 ^ 63 ≤
          nearestDouble (nearestDouble total + nearestDouble more) := by
        rcases Nat.le_total more total with ordered | ordered
        · exact le_nearestDouble_add ordered (by omega) (by omega)
        · rw [Nat.add_comm]
          exact le_nearestDouble_add ordered (by omega) (by omega)
      rw [if_neg after, Number.add, if_neg outside, toDouble_natCast,
        toDouble_natCast, ← Nat.cast_add, toDouble_natCast]
      refine ⟨_, overflows, ?_⟩
      rw [Number.inIntegerColumn, if_neg (by omega)]
  · rename_i before
    obtain ⟨value, large, rfl⟩ := counts
    have overflows : 2 ^ 63 ≤ nearestDouble (value + nearestDouble more) :=
      pow_le_nearestDouble (by omega)
    rw [if_neg (by omega)]
    refine ⟨_, overflows, ?_⟩
    simp only [Number.add, Number.asDouble]
    rw [toDouble_natCast, ← Nat.cast_add, toDouble_natCast,
      Number.inIntegerColumn, if_neg (by omega)]

end Sqlite
