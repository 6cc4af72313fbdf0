import Mathlib.Data.List.Basic

/-!
# Maps that keep the order of their keys

A map is its entries.  A key that is there is rewritten in place, and a new one
goes to the end.
-/

namespace Rust

abbrev IndexMap (Value : Type) := List (String × Value)

namespace IndexMap

variable {Value : Type}

def get (map : IndexMap Value) (key : String) : Option Value :=
  (map.find? fun entry => entry.1 = key).map (·.2)

def insert : IndexMap Value → String → Value → IndexMap Value
  | [], key, value => [(key, value)]
  | (other, old) :: rest, key, value =>
    if other = key then (key, value) :: rest
    else (other, old) :: insert rest key value

def remove (map : IndexMap Value) (key : String) : IndexMap Value :=
  map.filter fun entry => entry.1 ≠ key

theorem get_cons (entry : String × Value) (map : IndexMap Value)
    (key : String) :
    get (entry :: map) key = if entry.1 = key then some entry.2
      else get map key := by
  by_cases same : entry.1 = key
  · simp [get, same]
  · simp [get, same]

theorem get_of_mem {map : IndexMap Value} {key : String} {value : Value}
    (keys : (map.map (·.1)).Nodup) (listed : (key, value) ∈ map) :
    map.get key = some value := by
  induction map with
  | nil => cases listed
  | cons entry map ih =>
    rw [List.map_cons, List.nodup_cons] at keys
    rw [get_cons]
    rcases List.mem_cons.mp listed with rfl | later
    · exact if_pos rfl
    · have other : entry.1 ≠ key := by
        intro same
        exact keys.1 (same ▸ List.mem_map_of_mem later)
      rw [if_neg other]
      exact ih keys.2 later

theorem get_eq_none {map : IndexMap Value} {key : String}
    (absent : key ∉ map.map (·.1)) : map.get key = none := by
  induction map with
  | nil => rfl
  | cons entry map ih =>
    rw [List.map_cons, List.mem_cons, not_or] at absent
    rw [get_cons, if_neg (Ne.symm absent.1)]
    exact ih absent.2

theorem get_insert (map : IndexMap Value) (key other : String)
    (value : Value) :
    (map.insert key value).get other =
      if other = key then some value else map.get other := by
  induction map with
  | nil =>
    rw [insert, get_cons]
    by_cases same : other = key
    · simp [same]
    · simp [same, Ne.symm same]
  | cons entry map ih =>
    obtain ⟨first, old⟩ := entry
    rw [insert]
    by_cases here : first = key
    · subst here
      rw [if_pos rfl, get_cons, get_cons]
      by_cases same : other = first
      · simp [same]
      · simp [same, Ne.symm same]
    · rw [if_neg here, get_cons, get_cons, ih]
      by_cases same : first = other
      · subst same
        simp [here]
      · simp [same]

theorem get_remove (map : IndexMap Value) (key other : String) :
    (map.remove key).get other =
      if other = key then none else map.get other := by
  rw [get, remove, List.find?_filter]
  by_cases same : other = key
  · subst same
    simp
  · rw [if_neg same, get]
    congr 2
    funext entry
    by_cases named : entry.1 = other
    · simp [named, same]
    · simp [named]

end IndexMap

end Rust
