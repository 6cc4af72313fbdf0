import Mathlib.Algebra.Group.Nat.Defs
import Mathlib.Data.List.Basic
import Mathlib.Data.Nat.Log

/-!
# Perfect hash trees

A perfect binary tree over leaves that are given at every place; of the leaves
that are not there a pad stands in.  A subtree is a tree over the nodes of a
layer, so that a tree can be computed in two stages.
-/

namespace Merkle

variable {α : Type} (combine : α → α → α)

/-- The node at a height, counted from the left. -/
def node (leaf : Nat → α) : Nat → Nat → α
  | 0, index => leaf index
  | height + 1, index =>
    combine (node leaf height (2 * index)) (node leaf height (2 * index + 1))

/-- The leaves of a list, and the pad after them. -/
def padded (leaves : List α) (pad : α) (index : Nat) : α :=
  leaves.getD index pad

/-- The layer above, pair by pair; a last one without a partner is its own. -/
def pairUp : List α → List α
  | [] => []
  | [last] => [combine last last]
  | left :: right :: rest => combine left right :: pairUp rest

/-- Layer after layer, until one node is left. -/
def reduce : Nat → List α → List α
  | 0, layer => layer
  | budget + 1, layer =>
    if 1 < layer.length then reduce budget (pairUp combine layer) else layer

variable {combine} {leaf other : Nat → α}

theorem node_add (low high index : Nat) :
    node combine leaf (low + high) index =
      node combine (node combine leaf low) high index := by
  induction high generalizing index with
  | zero => rfl
  | succ high ih => rw [← Nat.add_assoc, node, node, ih, ih]

theorem node_congr {height index place : Nat}
    (same : ∀ offset < 2 ^ height,
      leaf (index * 2 ^ height + offset) =
        other (place * 2 ^ height + offset)) :
    node combine leaf height index = node combine other height place := by
  induction height generalizing index place with
  | zero => simpa [node] using same 0 (Nat.two_pow_pos 0)
  | succ height ih =>
    rw [node, node]
    have double : 2 ^ (height + 1) = 2 * 2 ^ height := by
      rw [Nat.pow_succ, Nat.mul_comm]
    have left : ∀ offset < 2 ^ height,
        leaf (2 * index * 2 ^ height + offset) =
          other (2 * place * 2 ^ height + offset) := by
      intro offset small
      have here := same offset (by omega)
      rw [double] at here
      rwa [Nat.mul_comm 2 index, Nat.mul_comm 2 place, Nat.mul_assoc,
        Nat.mul_assoc]
    have right : ∀ offset < 2 ^ height,
        leaf ((2 * index + 1) * 2 ^ height + offset) =
          other ((2 * place + 1) * 2 ^ height + offset) := by
      intro offset small
      have here := same (2 ^ height + offset) (by omega)
      rw [double] at here
      have shift (place : Nat) : (2 * place + 1) * 2 ^ height + offset =
          place * (2 * 2 ^ height) + (2 ^ height + offset) := by
        rw [Nat.add_mul, Nat.one_mul, Nat.mul_comm 2 place, Nat.mul_assoc,
          Nat.add_assoc]
      rwa [shift, shift]
    rw [ih left, ih right]

theorem pairUp_range (combine : α → α → α) (leaf : Nat → α)
    (start count : Nat) :
    pairUp combine ((List.range' (2 * start) (2 * count)).map leaf) =
      (List.range' start count).map (node combine leaf 1) := by
  induction count generalizing start with
  | zero => rfl
  | succ count ih =>
    have two : 2 * (count + 1) = 2 * count + 1 + 1 := by omega
    rw [two, List.range'_succ, List.range'_succ, List.map_cons,
      List.map_cons, pairUp, List.range'_succ, List.map_cons, node, node,
      node, ← ih (start + 1), Nat.mul_add]

theorem reduce_full {height budget : Nat} (enough : height ≤ budget) :
    reduce combine budget ((List.range' 0 (2 ^ height)).map leaf) =
      [node combine leaf height 0] := by
  induction height generalizing leaf budget with
  | zero =>
    cases budget with
    | zero => rfl
    | succ budget => rfl
  | succ height ih =>
    obtain ⟨budget, rfl⟩ := Nat.exists_eq_succ_of_ne_zero
      (Nat.ne_zero_of_lt enough)
    have many : 1 < ((List.range' 0 (2 ^ (height + 1))).map leaf).length := by
      rw [List.length_map, List.length_range']
      exact Nat.one_lt_two_pow (Nat.succ_ne_zero _)
    have double : 2 ^ (height + 1) = 2 * 2 ^ height := by
      rw [Nat.pow_succ, Nat.mul_comm]
    have paired := pairUp_range combine leaf 0 (2 ^ height)
    rw [reduce, if_pos many, double]
    rw [Nat.mul_zero] at paired
    rw [paired, ih (Nat.le_of_succ_le_succ enough), ← node_add,
      Nat.add_comm]

theorem filled_eq_range {leaves : List α} {pad : α} {width : Nat}
    (short : leaves.length ≤ width) :
    leaves ++ List.replicate (width - leaves.length) pad =
      (List.range' 0 width).map (padded leaves pad) := by
  apply List.ext_getElem
  · simp only [List.length_append, List.length_replicate, List.length_map,
      List.length_range']
    omega
  · intro index bound bound_
    rw [List.getElem_map, List.getElem_range', Nat.zero_add, Nat.one_mul,
      padded, List.getD_eq_getElem?_getD]
    by_cases there : index < leaves.length
    · rw [List.getElem_append_left there, List.getElem?_eq_getElem there,
        Option.getD_some]
    · have after := Nat.le_of_not_lt there
      rw [List.getElem_append_right after, List.getElem_replicate,
        List.getElem?_eq_none after, Option.getD_none]

/-- The height of a tree in two stages: as many full groups as it takes, and at
least two of them. -/
theorem clog_groups {count group height : Nat} (many : 2 ≤ count)
    (fills : group ≤ count * 2 ^ height)
    (needs : (count - 1) * 2 ^ height < group) :
    Nat.clog 2 group = height + Nat.clog 2 count := by
  have upper : group ≤ 2 ^ (height + Nat.clog 2 count) := by
    have count_ := Nat.le_pow_clog (Nat.one_lt_two) count
    calc group ≤ count * 2 ^ height := fills
      _ ≤ 2 ^ Nat.clog 2 count * 2 ^ height :=
        Nat.mul_le_mul_right _ count_
      _ = 2 ^ (height + Nat.clog 2 count) := by rw [Nat.pow_add, Nat.mul_comm]
  have lower : 2 ^ (height + Nat.clog 2 count - 1) < group := by
    have positive := Nat.clog_pos Nat.one_lt_two many
    have below :=
      Nat.pow_pred_clog_lt_self Nat.one_lt_two (by omega : 1 < count)
    have split : height + Nat.clog 2 count - 1 =
        (Nat.clog 2 count).pred + height := by
      rw [Nat.pred_eq_sub_one]
      omega
    calc 2 ^ (height + Nat.clog 2 count - 1) =
          2 ^ (Nat.clog 2 count).pred * 2 ^ height := by
            rw [split, Nat.pow_add]
      _ ≤ (count - 1) * 2 ^ height := Nat.mul_le_mul_right _ (by omega)
      _ < group := needs
  apply Nat.le_antisymm
  · exact Nat.clog_le_of_le_pow upper
  · have positive := Nat.clog_pos Nat.one_lt_two many
    by_contra above
    have small : Nat.clog 2 group ≤ height + Nat.clog 2 count - 1 := by omega
    have reach := Nat.le_pow_clog Nat.one_lt_two group
    have bound := Nat.pow_le_pow_right Nat.two_pos small
    omega

end Merkle
