import Mathlib.Data.List.Sort

/-!
# The first rows in some order

What `ORDER BY` and `LIMIT` select: so many rows, none of which comes after a
row that is left out.
-/

namespace Limited

variable {Row : Type} {below : Row → Row → Prop} [DecidableRel below]
variable {count : Nat} {rows : List Row} {row other : Row}

/-- The first `count` rows in the order `below`. -/
def first (below : Row → Row → Prop) [DecidableRel below] (count : Nat)
    (rows : List Row) : List Row :=
  (rows.insertionSort below).take count

theorem mem_of_mem_first (member : row ∈ first below count rows) :
    row ∈ rows :=
  (List.mem_insertionSort below).mp (List.mem_of_mem_take member)

theorem length_first : (first below count rows).length =
    min count rows.length := by
  rw [first, List.length_take, List.length_insertionSort]

theorem nodup_first (nodup : rows.Nodup) : (first below count rows).Nodup :=
  ((List.perm_insertionSort below rows).nodup_iff.mpr nodup).sublist
    (List.take_sublist _ _)

theorem mem_first_of_length_le (few : rows.length ≤ count) :
    row ∈ first below count rows ↔ row ∈ rows := by
  have sorted : (rows.insertionSort below).length ≤ count := by
    rwa [List.length_insertionSort]
  rw [first, List.take_of_length_le sorted, List.mem_insertionSort]

theorem below_of_mem_first [Std.Total below] [IsTrans Row below]
    (member : row ∈ first below count rows) (among : other ∈ rows)
    (left : other ∉ first below count rows) : below row other := by
  have sorted := List.pairwise_insertionSort below rows
  rw [← List.take_append_drop count (rows.insertionSort below)] at sorted
  have dropped : other ∈ (rows.insertionSort below).drop count := by
    have all := (List.mem_insertionSort below).mpr among
    rw [← List.take_append_drop count (rows.insertionSort below)] at all
    exact (List.mem_append.mp all).resolve_left left
  exact (List.pairwise_append.mp sorted).2.2 row member other dropped

/-- Rows are the first ones if each row left out comes strictly after as many as
are selected. -/
theorem perm_first [Std.Total below] [IsTrans Row below] {kept : List Row}
    (nodup : rows.Nodup) (keptNodup : kept.Nodup) (among : kept ⊆ rows)
    (few : kept.length ≤ count)
    (full : ∀ left ∈ rows, left ∉ kept →
      kept.length = count ∧ ∀ row ∈ kept, ¬ below left row) :
    kept.Perm (first below count rows) := by
  have within : kept ⊆ first below count rows := by
    intro row member
    by_contra left
    have all : ∀ other ∈ first below count rows, other ∈ kept := by
      intro other selected
      by_contra missing
      exact (full other (mem_of_mem_first selected) missing).2 row member
        (below_of_mem_first selected (among member) left)
    have more : (row :: first below count rows) ⊆ kept :=
      List.cons_subset.mpr ⟨member, all⟩
    have distinct := List.nodup_cons.mpr ⟨left, nodup_first nodup⟩
    have counted := (List.subperm_of_subset distinct more).length_le
    have short : rows.length ≤ count := by
      rw [List.length_cons, length_first] at counted
      omega
    exact left ((mem_first_of_length_le short).mpr (among member))
  refine (List.subperm_of_subset keptNodup within).perm_of_length_le ?_
  by_cases same : first below count rows ⊆ kept
  · exact (List.subperm_of_subset (nodup_first nodup) same).length_le
  · obtain ⟨other, selected, missing⟩ := Set.not_subset.mp same
    rw [(full other (mem_of_mem_first selected) missing).1, length_first]
    exact Nat.min_le_left _ _

end Limited
