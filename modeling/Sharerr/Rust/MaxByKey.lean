import Mathlib.Data.List.Basic

/-!
# `Iterator::max_by_key`

Of several items with the greatest key the last one is taken.
-/

namespace Rust

variable {α : Type} (key : α → Nat)

def later (best item : α) : α := if key best ≤ key item then item else best

def maxByKey : List α → Option α
  | [] => none
  | first :: rest => some (rest.foldl (later key) first)

/-- The greatest of the items, and greater than all after it. -/
def IsLastMax (items : List α) (best : α) : Prop :=
  ∃ before after, items = before ++ best :: after ∧
    (∀ item ∈ before, key item ≤ key best) ∧
    ∀ item ∈ after, key item < key best

variable {key} {items : List α} {best : α}

theorem isLastMax_foldl (first : α) (rest : List α) :
    IsLastMax key (first :: rest) (rest.foldl (later key) first) := by
  induction rest generalizing first with
  | nil => exact ⟨[], [], rfl, by simp, by simp⟩
  | cons second rest ih =>
    rw [List.foldl_cons, later]
    by_cases beaten : key first ≤ key second
    · rw [if_pos beaten]
      have last := ih second
      generalize rest.foldl (later key) second = best at last
      obtain ⟨before, after, shape, less, greater⟩ := last
      refine ⟨first :: before, after, by rw [shape]; rfl, ?_, greater⟩
      refine List.forall_mem_cons.mpr ⟨?_, less⟩
      cases before with
      | nil => exact (List.cons.inj shape).1 ▸ beaten
      | cons head before =>
        obtain ⟨rfl, -⟩ := List.cons.inj shape
        exact Nat.le_trans beaten (less second List.mem_cons_self)
    · rw [if_neg beaten]
      have last := ih first
      generalize rest.foldl (later key) first = best at last
      obtain ⟨before, after, shape, less, greater⟩ := last
      cases before with
      | nil =>
        obtain ⟨rfl, rfl⟩ := List.cons.inj shape
        exact ⟨[], second :: rest, rfl, by simp,
          List.forall_mem_cons.mpr ⟨Nat.lt_of_not_le beaten, greater⟩⟩
      | cons head before =>
        obtain ⟨rfl, rfl⟩ := List.cons.inj shape
        obtain ⟨above, less⟩ := List.forall_mem_cons.mp less
        refine ⟨first :: second :: before, after, rfl, ?_, greater⟩
        exact List.forall_mem_cons.mpr ⟨above,
          List.forall_mem_cons.mpr ⟨by omega, less⟩⟩

theorem IsLastMax.unique {other : α} (one : IsLastMax key items best)
    (two : IsLastMax key items other) : best = other := by
  obtain ⟨before, after, shape, less, greater⟩ := one
  obtain ⟨before_, after_, shape_, less_, greater_⟩ := two
  rw [shape] at shape_
  rcases List.append_eq_append_iff.mp shape_ with
    ⟨between, left, right⟩ | ⟨between, left, right⟩
  · cases between with
    | nil =>
      cases right
      rfl
    | cons head between =>
      obtain ⟨rfl, tail⟩ := List.cons.inj right
      have below := less_ best (by rw [left]; simp)
      have above := greater other (by rw [tail]; simp)
      omega
  · cases between with
    | nil =>
      cases right
      rfl
    | cons head between =>
      obtain ⟨rfl, tail⟩ := List.cons.inj right
      have below := less other (by rw [left]; simp)
      have above := greater_ best (by rw [tail]; simp)
      omega

theorem maxByKey_eq_none : maxByKey key items = none ↔ items = [] := by
  cases items with
  | nil => exact ⟨fun _ => rfl, fun _ => rfl⟩
  | cons first rest => simp [maxByKey]

theorem maxByKey_eq_some : maxByKey key items = some best ↔
    IsLastMax key items best := by
  cases items with
  | nil =>
    constructor
    · intro found
      cases found
    · intro last
      obtain ⟨before, after, shape, -⟩ := last
      exact absurd shape (by simp)
  | cons first rest =>
    rw [maxByKey, Option.some.injEq]
    constructor
    · intro same
      rw [← same]
      exact isLastMax_foldl first rest
    · exact (isLastMax_foldl first rest).unique

end Rust
