import Sharerr.Rust.HashMap

/-!
# Counting and grouping with a map

`*map.entry(key).or_insert(0) += 1` counts the keys, and
`map.entry(key).or_default().push(value)` groups values under them.
-/

namespace Rust

namespace HashMap

variable {Key Value : Type} [DecidableEq Key]

def bump (map : HashMap Key Nat) (key : Key) : HashMap Key Nat :=
  map.insert key ((map.get key).getD 0 + 1)

def push (map : HashMap Key (List Value)) (key : Key) (value : Value) :
    HashMap Key (List Value) :=
  map.insert key ((map.get key).getD [] ++ [value])

theorem getD_foldl_push (pushed : List (Key × Value))
    (map : HashMap Key (List Value)) (key : Key) :
    ((pushed.foldl (fun map each => map.push each.1 each.2) map).get
        key).getD [] =
      (map.get key).getD [] ++
        (pushed.filter fun each => each.1 = key).map (·.2) := by
  induction pushed generalizing map with
  | nil => simp
  | cons first pushed ih =>
    rw [List.foldl_cons, ih, push, get_insert]
    by_cases same : first.1 = key
    · subst same
      simp
    · rw [if_neg (Ne.symm same), List.filter_cons_of_neg (by simpa using same)]

/-- A count is the number of times, and there is none of what was never
counted. -/
theorem get_foldl_bump (keys : List Key) (map : HashMap Key Nat) (key : Key) :
    (keys.foldl bump map).get key =
      if (keys.countP fun each => each = key) = 0 then map.get key
      else some
        ((map.get key).getD 0 + keys.countP fun each => each = key) := by
  induction keys generalizing map with
  | nil => rfl
  | cons first keys ih =>
    rw [List.foldl_cons, ih, bump, get_insert, List.countP_cons]
    by_cases same : first = key
    · subst same
      simp only [decide_true, if_true]
      split
      · rename_i none_
        rw [none_]
        rfl
      · simp
        omega
    · rw [if_neg (Ne.symm same)]
      simp [same]

theorem mem_foldl_bump {keys : List Key} {key : Key} {count : Nat} :
    (key, count) ∈ (keys.foldl bump empty).entries ↔
      key ∈ keys ∧ count = keys.countP fun each => each = key := by
  have among : key ∈ keys ↔ (keys.countP fun each => each = key) ≠ 0 := by
    rw [Nat.ne_zero_iff_zero_lt, List.countP_pos_iff]
    simp
  rw [mem_entries_iff, get_foldl_bump, get_empty, among]
  split
  · rename_i none_
    exact iff_of_false (fun found => nomatch found) fun both => both.1 none_
  · rename_i some_
    rw [Option.getD_none, Nat.zero_add, Option.some.injEq]
    exact ⟨fun same => ⟨some_, same.symm⟩, fun both => both.2.symm⟩

end HashMap

end Rust
