import Mathlib.Data.List.Nodup

/-!
# Lists of rows with a unique key

The rows of a table, found and rewritten by a key that no two of them share.
-/

namespace Keyed

variable {Row Key : Type} [DecidableEq Key] {key : Row → Key}
variable {rows : List Row} {row : Row} {wanted other : Key}

/-- The row with the wanted key. -/
def find (key : Row → Key) (rows : List Row) (wanted : Key) : Option Row :=
  rows.find? fun row => key row = wanted

/-- Rewrite the row with the wanted key. -/
def modify (key : Row → Key) (rows : List Row) (wanted : Key)
    (write : Row → Row) : List Row :=
  rows.map fun row => if key row = wanted then write row else row

/-- Drop the row with the wanted key. -/
def remove (key : Row → Key) (rows : List Row) (wanted : Key) : List Row :=
  rows.filter fun row => key row ≠ wanted

theorem mem_of_find_eq_some (found : find key rows wanted = some row) :
    row ∈ rows :=
  List.mem_of_find?_eq_some found

theorem key_of_find_eq_some (found : find key rows wanted = some row) :
    key row = wanted := by
  simpa using List.find?_some found

theorem find_eq_none_iff :
    find key rows wanted = none ↔ wanted ∉ rows.map key := by
  simp [find, List.find?_eq_none]

theorem find_eq_some_iff (unique : (rows.map key).Nodup) :
    find key rows wanted = some row ↔ row ∈ rows ∧ key row = wanted := by
  constructor
  · intro found
    exact ⟨mem_of_find_eq_some found, key_of_find_eq_some found⟩
  · rintro ⟨member, named⟩
    cases found : find key rows wanted with
    | none =>
      have absent := find_eq_none_iff.mp found
      exact absurd (List.mem_map.mpr ⟨row, member, named⟩) absent
    | some first =>
      have same : first = row :=
        List.inj_on_of_nodup_map unique (mem_of_find_eq_some found) member
          ((key_of_find_eq_some found).trans named.symm)
      rw [same]

section Modify

variable {write : Row → Row}

theorem mem_modify (member : row ∈ modify key rows wanted write) :
    ∃ before ∈ rows, row = before ∨
      key before = wanted ∧ row = write before := by
  obtain ⟨before, beforeMember, rfl⟩ := List.mem_map.mp member
  refine ⟨before, beforeMember, ?_⟩
  split
  · rename_i same
    exact .inr ⟨same, rfl⟩
  · exact .inl rfl

/-- A statement that leaves a column alone leaves the whole column alone. -/
theorem map_modify {Column : Type} {column : Row → Column}
    (keeps : ∀ row, column (write row) = column row) :
    (modify key rows wanted write).map column = rows.map column := by
  rw [modify, List.map_map]
  apply List.map_congr_left
  intro row _
  by_cases same : key row = wanted
  · simp [same, keeps]
  · simp [same]

theorem find_modify (key : Row → Key) (rows : List Row) (wanted other : Key)
    (write : Row → Row) (keeps : ∀ row, key (write row) = key row) :
    find key (modify key rows wanted write) other =
      if other = wanted then (find key rows other).map write
      else find key rows other := by
  have sameTest : ((fun row => decide (key row = other)) ∘
      fun row => if key row = wanted then write row else row) =
      fun row => decide (key row = other) := by
    funext row
    by_cases same : key row = wanted
    · simp [same, keeps]
    · simp [same]
  simp only [find, modify, List.find?_map, sameTest]
  cases found : rows.find? fun row => decide (key row = other) with
  | none => simp
  | some row =>
    have named : key row = other := by simpa using List.find?_some found
    by_cases same : other = wanted
    · simp [named, same]
    · simp [named, same]

end Modify

theorem find_append_old (found : other ≠ key row) :
    find key (rows ++ [row]) other = find key rows other := by
  simp [find, List.find?_append, Ne.symm found]

theorem find_append_new (fresh : key row ∉ rows.map key) :
    find key (rows ++ [row]) (key row) = some row := by
  have absent := find_eq_none_iff.mpr fresh
  simp only [find] at absent
  simp [find, List.find?_append, absent]

theorem modify_append_new {write : Row → Row} (fresh : key row ∉ rows.map key) :
    modify key (rows ++ [row]) (key row) write = rows ++ [write row] := by
  have others : ∀ other ∈ rows,
      (if key other = key row then write other else other) = other := by
    intro other member
    rw [if_neg]
    intro same
    exact fresh (List.mem_map.mpr ⟨other, member, same⟩)
  rw [modify, List.map_append, List.map_congr_left others]
  simp

omit [DecidableEq Key] in
theorem nodup_append (unique : (rows.map key).Nodup)
    (fresh : key row ∉ rows.map key) :
    ((rows ++ [row]).map key).Nodup := by
  rw [List.map_append, List.map_singleton, ← List.concat_eq_append]
  exact (List.nodup_concat _ _).mpr ⟨fresh, unique⟩

theorem remove_sublist : (remove key rows wanted).Sublist rows :=
  List.filter_sublist

theorem find_remove :
    find key (remove key rows wanted) other =
      if other = wanted then none else find key rows other := by
  simp only [find, remove, List.find?_filter]
  by_cases same : other = wanted
  · rw [if_pos same, List.find?_eq_none]
    intro row _
    simp only [decide_eq_true_eq, not_and]
    intro different named
    exact different (named.trans same)
  · rw [if_neg same]
    congr 1
    funext row
    by_cases named : key row = other
    · simp [named, same]
    · simp [named]

end Keyed
