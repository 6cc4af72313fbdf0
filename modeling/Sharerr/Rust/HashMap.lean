import Sharerr.Table.Keyed

/-!
# `HashMap`

The entries of a map, each key once, in an order that nothing fixes.
-/

namespace Rust

structure HashMap (Key Value : Type) where
  entries : List (Key × Value)
  distinct : (entries.map (·.1)).Nodup

namespace HashMap

variable {Key Value : Type}

def empty : HashMap Key Value := ⟨[], List.nodup_nil⟩

def len (map : HashMap Key Value) : Nat := map.entries.length

def retain (map : HashMap Key Value) (keep : Key × Value → Bool) :
    HashMap Key Value where
  entries := map.entries.filter keep
  distinct := map.distinct.sublist (List.filter_sublist.map _)

variable [DecidableEq Key]

def get (map : HashMap Key Value) (key : Key) : Option Value :=
  (Keyed.find (·.1) map.entries key).map (·.2)

def remove (map : HashMap Key Value) (key : Key) : HashMap Key Value :=
  map.retain fun entry => entry.1 ≠ key

def insert (map : HashMap Key Value) (key : Key) (value : Value) :
    HashMap Key Value where
  entries := (map.remove key).entries ++ [(key, value)]
  distinct := by
    apply Keyed.nodup_append (map.remove key).distinct
    simp [remove, retain]

variable {map : HashMap Key Value} {key other : Key} {value : Value}
variable {keep : Key × Value → Bool}

theorem mem_entries_iff :
    (key, value) ∈ map.entries ↔ map.get key = some value := by
  rw [get, Option.map_eq_some_iff]
  constructor
  · intro member
    exact ⟨_, (Keyed.find_eq_some_iff map.distinct).mpr ⟨member, rfl⟩, rfl⟩
  · rintro ⟨entry, found, rfl⟩
    obtain ⟨member, rfl⟩ := (Keyed.find_eq_some_iff map.distinct).mp found
    exact member

theorem get_eq_none_iff :
    map.get key = none ↔ ∀ entry ∈ map.entries, entry.1 ≠ key := by
  rw [get, Option.map_eq_none_iff, Keyed.find_eq_none_iff, List.mem_map]
  constructor
  · intro absent entry member same
    exact absent ⟨entry, member, same⟩
  · rintro absent ⟨entry, member, same⟩
    exact absent entry member same

@[simp] theorem get_empty : (empty : HashMap Key Value).get key = none :=
  rfl

theorem get_retain : (map.retain keep).get key =
    (map.get key).filter fun value => keep (key, value) := by
  cases found : (map.retain keep).get key with
  | some value =>
    obtain ⟨member, kept⟩ := List.mem_filter.mp (mem_entries_iff.mpr found)
    rw [mem_entries_iff.mp member, Option.filter_some, if_pos kept]
  | none =>
    cases before : map.get key with
    | none => rfl
    | some value =>
      have dropped : keep (key, value) ≠ true := by
        intro kept
        have member : (key, value) ∈ (map.retain keep).entries :=
          List.mem_filter.mpr ⟨mem_entries_iff.mpr before, kept⟩
        rw [mem_entries_iff, found] at member
        cases member
      rw [Option.filter_some, if_neg dropped]

theorem get_remove : (map.remove key).get other =
    if other = key then none else map.get other := by
  rw [remove, get_retain]
  by_cases same : other = key
  · simp [same]
  · cases map.get other <;> simp [same]

theorem get_insert : (map.insert key value).get other =
    if other = key then some value else map.get other := by
  by_cases same : other = key
  · subst same
    rw [if_pos rfl, ← mem_entries_iff]
    exact List.mem_append_right _ (List.mem_singleton.mpr rfl)
  · rw [if_neg same]
    have elsewhere :
        Keyed.find (·.1) ((map.remove key).entries ++ [(key, value)]) other =
          Keyed.find (·.1) (map.remove key).entries other :=
      Keyed.find_append_old same
    have removed : (map.remove key).get other = map.get other := by
      rw [get_remove, if_neg same]
    rw [← removed, get, insert, elsewhere, get]

omit [DecidableEq Key] in
theorem len_retain_le : (map.retain keep).len ≤ map.len :=
  List.length_filter_le _ _

omit [DecidableEq Key] in
theorem retain_eq_self (all : ∀ entry ∈ map.entries, keep entry = true) :
    map.retain keep = map := by
  obtain ⟨entries, distinct⟩ := map
  simp only [retain, HashMap.mk.injEq]
  exact List.filter_eq_self.mpr all

theorem remove_of_get_eq_none (absent : map.get key = none) :
    map.remove key = map := by
  apply retain_eq_self
  intro entry member
  simpa using get_eq_none_iff.mp absent entry member

theorem len_insert_of_none (absent : map.get key = none) :
    (map.insert key value).len = map.len + 1 := by
  simp only [len, insert, List.length_append, remove_of_get_eq_none absent]
  rfl

theorem len_insert_le : (map.insert key value).len ≤ map.len + 1 := by
  rw [len, insert, List.length_append, List.length_singleton]
  exact Nat.succ_le_succ len_retain_le

/-- A key that is there already takes no more room. -/
theorem len_insert_of_some {old : Value} (present : map.get key = some old) :
    (map.insert key value).len = map.len := by
  have once : (map.entries.filter fun entry => decide (entry.1 = key)).length =
      1 := by
    have found := mem_entries_iff.mpr present
    rw [← List.countP_eq_length_filter]
    have counted : (map.entries.map (·.1)).count key = 1 :=
      List.count_eq_one_of_mem map.distinct (List.mem_map.mpr ⟨_, found, rfl⟩)
    rw [← counted, List.count, List.countP_map]
    congr 1
  have split := List.length_eq_length_filter_add
    (l := map.entries) fun entry => decide (entry.1 = key)
  rw [len, insert, List.length_append, remove, retain, len, split, once]
  simp [Nat.add_comm]

end HashMap

end Rust
