import Mathlib.Data.List.Basic
import Mathlib.Data.List.Induction
import Mathlib.Data.Nat.Digits.Defs
import Mathlib.Tactic.Ring

/-!
# Digits of another width

The bits of digits of one width are taken in one digit at a time, and given
out as digits of another width.  What was taken and what was given stand for
one number, but for the bits that are left over.
-/

namespace Rust

/-- The number digits stand for, the first of them the highest. -/
def valueOf (base : Nat) (digits : List Nat) : Nat :=
  digits.foldl (fun value digit => value * base + digit) 0

section Values

variable {base : Nat}

@[simp] theorem valueOf_concat (digits : List Nat) (digit : Nat) :
    valueOf base (digits ++ [digit]) = valueOf base digits * base + digit := by
  rw [valueOf, List.foldl_append]
  rfl

theorem valueOf_eq_ofDigits (digits : List Nat) :
    valueOf base digits = Nat.ofDigits base digits.reverse := by
  induction digits using List.reverseRecOn with
  | nil => rfl
  | append_singleton digits digit ih =>
    rw [valueOf_concat, ih, List.reverse_append, List.reverse_singleton,
      List.singleton_append, Nat.ofDigits_cons]
    ring

theorem valueOf_inj (two : 1 < base) {digits others : List Nat}
    (length : digits.length = others.length)
    (small : ∀ digit ∈ digits, digit < base)
    (small_ : ∀ digit ∈ others, digit < base)
    (same : valueOf base digits = valueOf base others) : digits = others := by
  rw [valueOf_eq_ofDigits, valueOf_eq_ofDigits] at same
  refine List.reverse_injective (Nat.ofDigits_inj_of_len_eq two ?_ ?_ ?_ same)
  · rw [List.length_reverse, List.length_reverse, length]
  · exact fun digit member => small digit (List.mem_reverse.mp member)
  · exact fun digit member => small_ digit (List.mem_reverse.mp member)

end Values

/-- What was taken in, in digits of `input` bits, is what was given out, in
digits of `output` bits, and a rest of some bits. -/
structure Regrouped (input output : Nat) (taken given : List Nat)
    (rest bits : Nat) : Prop where
  value : valueOf (2 ^ input) taken =
    valueOf (2 ^ output) given * 2 ^ bits + rest
  length : input * taken.length = output * given.length + bits
  small : rest < 2 ^ bits

namespace Regrouped

variable {input output : Nat} {taken given : List Nat} {rest bits : Nat}

theorem start (input output : Nat) : Regrouped input output [] [] 0 0 :=
  ⟨rfl, rfl, Nat.one_pos⟩

theorem take (regrouped : Regrouped input output taken given rest bits)
    {digit : Nat} (low : digit < 2 ^ input) :
    Regrouped input output (taken ++ [digit]) given (rest * 2 ^ input + digit)
      (bits + input) := by
  refine ⟨?_, ?_, ?_⟩
  · rw [valueOf_concat, regrouped.value, Nat.pow_add]
    ring
  · rw [List.length_append, Nat.mul_add, regrouped.length]
    simp only [List.length_singleton, Nat.mul_one]
    omega
  · have room : (rest + 1) * 2 ^ input ≤ 2 ^ bits * 2 ^ input :=
      Nat.mul_le_mul_right _ regrouped.small
    rw [Nat.pow_add]
    rw [Nat.add_mul, Nat.one_mul] at room
    omega

theorem give
    (regrouped : Regrouped input output taken given rest (bits + output)) :
    Regrouped input output taken (given ++ [rest / 2 ^ bits]) (rest % 2 ^ bits)
        bits ∧ rest / 2 ^ bits < 2 ^ output := by
  have whole := Nat.div_add_mod rest (2 ^ bits)
  refine ⟨⟨?_, ?_, Nat.mod_lt _ (Nat.two_pow_pos bits)⟩, ?_⟩
  · rw [valueOf_concat, regrouped.value, Nat.pow_add, Nat.add_mul]
    rw [Nat.mul_comm] at whole
    conv_lhs => rw [← whole]
    ring
  · rw [regrouped.length, List.length_append, Nat.mul_add]
    simp only [List.length_singleton, Nat.mul_one]
    omega
  · refine Nat.div_lt_of_lt_mul ?_
    rw [← Nat.pow_add]
    exact regrouped.small

/-- Where nothing is left, what was given is regrouped to what was taken. -/
theorem flip (regrouped : Regrouped input output taken given 0 0) :
    Regrouped output input given taken 0 0 := by
  refine ⟨?_, ?_, Nat.one_pos⟩
  · have value := regrouped.value
    rw [Nat.pow_zero, Nat.mul_one, Nat.add_zero] at value ⊢
    exact value.symm
  · exact regrouped.length.symm

theorem flip_padded (regrouped : Regrouped input output taken given rest bits)
    (few : bits ≤ output) :
    Regrouped output input (given ++ [rest * 2 ^ (output - bits)]) taken 0
      (output - bits) := by
  have width : 2 ^ output = 2 ^ bits * 2 ^ (output - bits) := by
    rw [← Nat.pow_add, Nat.add_sub_cancel' few]
  refine ⟨?_, ?_, Nat.two_pow_pos _⟩
  · rw [valueOf_concat, regrouped.value]
    generalize valueOf (2 ^ output) given = number
    rw [width]
    ring
  · rw [List.length_append, Nat.mul_add, regrouped.length]
    simp only [List.length_singleton, Nat.mul_one]
    omega

/-- Bits are regrouped in one way. -/
theorem unique (regrouped : Regrouped input output taken given rest bits)
    {others : List Nat} {rest_ bits_ : Nat}
    (other : Regrouped input output taken others rest_ bits_)
    (few : bits < output) (few_ : bits_ < output)
    (small : ∀ digit ∈ given, digit < 2 ^ output)
    (small_ : ∀ digit ∈ others, digit < 2 ^ output) : given = others := by
  have lengths := regrouped.length.symm.trans other.length
  have length : given.length = others.length := by
    have whole := congrArg (· / output) lengths
    simp only [Nat.mul_add_div (Nat.zero_lt_of_lt few), Nat.div_eq_of_lt few,
      Nat.div_eq_of_lt few_, Nat.add_zero] at whole
    exact whole
  have left : bits = bits_ := by
    rw [length] at lengths
    exact Nat.add_left_cancel lengths
  have values := regrouped.value.symm.trans other.value
  have same : valueOf (2 ^ output) given = valueOf (2 ^ output) others := by
    rw [← left, Nat.mul_comm, Nat.mul_comm (valueOf _ others)] at values
    have low := other.small
    rw [← left] at low
    have whole := congrArg (· / 2 ^ bits) values
    simp only [Nat.mul_add_div (Nat.two_pow_pos bits),
      Nat.div_eq_of_lt regrouped.small, Nat.div_eq_of_lt low, Nat.add_zero]
      at whole
    exact whole
  exact valueOf_inj (Nat.one_lt_two_pow (Nat.ne_zero_of_lt few)) length small
    small_ same

end Regrouped

end Rust
