import Mathlib.Data.List.Induction
import Sharerr.Rust.Basic

/-!
# `BTreeMap`

The entries of a map in the order of their keys.  What is put in one after the
other comes out in order, and of two values under one key the later one.
-/

namespace Rust

namespace BTreeMap

variable {Key Value : Type} [LT Key] [DecidableLT Key] [DecidableEq Key]

/-- `BTreeMap::insert`. -/
def insert (key : Key) (value : Value) :
    List (Key × Value) → List (Key × Value)
  | [] => [(key, value)]
  | entry :: entries =>
    if key < entry.1 then (key, value) :: entry :: entries
    else if key = entry.1 then (key, value) :: entries
    else entry :: insert key value entries

def get (entries : List (Key × Value)) (key : Key) : Option Value :=
  (entries.find? fun entry => entry.1 = key).map (·.2)

/-- What is left after `BTreeMap::remove`. -/
def remove (entries : List (Key × Value)) (key : Key) : List (Key × Value) :=
  entries.filter fun entry => entry.1 ≠ key

/-- The entries inserted one after the other. -/
def collect (entries : List (Key × Value)) : List (Key × Value) :=
  entries.foldl (fun map entry => insert entry.1 entry.2 map) []

omit [DecidableLT Key] [DecidableEq Key] in
def Sorted (entries : List (Key × Value)) : Prop :=
  (entries.map (·.1)).Pairwise (· < ·)

theorem collect_append (entries : List (Key × Value)) (last : Key × Value) :
    collect (entries ++ [last]) = insert last.1 last.2 (collect entries) := by
  rw [collect, List.foldl_append]
  rfl

variable {entries : List (Key × Value)} {key other : Key} {value : Value}

variable {entry : Key × Value}

theorem mem_insert (member : entry ∈ insert key value entries) :
    entry = (key, value) ∨ entry ∈ entries := by
  induction entries with
  | nil => exact .inl (List.mem_singleton.mp member)
  | cons first rest ih =>
    rw [insert] at member
    split at member
    · exact (List.mem_cons.mp member)
    · split at member
      · rcases List.mem_cons.mp member with new | old
        · exact .inl new
        · exact .inr (List.mem_cons_of_mem _ old)
      · rcases List.mem_cons.mp member with same | among
        · exact .inr (same ▸ List.mem_cons_self)
        · rcases ih among with new | old
          · exact .inl new
          · exact .inr (List.mem_cons_of_mem _ old)

theorem mem_collect (member : entry ∈ collect entries) :
    entry ∈ entries := by
  induction entries using List.reverseRecOn with
  | nil => cases member
  | append_singleton entries last ih =>
    rw [collect_append] at member
    rcases mem_insert member with rfl | old
    · exact List.mem_append_right _ (List.mem_singleton.mpr rfl)
    · exact List.mem_append_left _ (ih old)

theorem get_insert : get (insert key value entries) other =
    if other = key then some value else get entries other := by
  induction entries with
  | nil =>
    by_cases same : other = key
    · simp [insert, get, same]
    · simp [insert, get, same, Ne.symm same]
  | cons first rest ih =>
    rw [insert]
    split
    · by_cases same : other = key
      · simp [get, same]
      · simp [get, same, Ne.symm same]
    · split
      · rename_i equal
        by_cases same : other = key
        · simp [get, same]
        · have elsewhere : first.1 ≠ other :=
            fun first_ => same (first_.symm.trans equal.symm)
          simp [get, same, Ne.symm same, elsewhere]
      · rename_i different
        by_cases here : first.1 = other
        · have unlike : other ≠ key :=
            fun same => different (same.symm.trans here.symm)
          simp [get, here, unlike]
        · have later := ih
          simp only [get] at later
          simp [get, here, later]

theorem mem_keys_insert : other ∈ (insert key value entries).map (·.1) ↔
    other = key ∨ other ∈ entries.map (·.1) := by
  induction entries with
  | nil => simp [insert]
  | cons first rest ih =>
    rw [insert]
    split
    · simp
    · split
      · rename_i same
        simp [same]
      · simp only [List.map_cons, List.mem_cons, ih]
        exact or_left_comm

/-- A new key is put somewhere, and nothing else changes. -/
theorem insert_perm (absent : key ∉ entries.map (·.1)) :
    (insert key value entries).Perm ((key, value) :: entries) := by
  induction entries with
  | nil => exact List.Perm.refl _
  | cons first rest ih =>
    rw [List.map_cons, List.mem_cons, not_or] at absent
    rw [insert]
    split
    · exact List.Perm.refl _
    · rw [if_neg absent.1]
      exact ((ih absent.2).cons first).trans (List.Perm.swap _ _ _)

omit [LT Key] [DecidableLT Key] in
theorem get_cons : get (entry :: entries) other =
    if entry.1 = other then some entry.2 else get entries other := by
  by_cases same : entry.1 = other
  · simp [get, same]
  · simp [get, same]

omit [LT Key] [DecidableLT Key] in
theorem get_remove : get (remove entries key) other =
    if other = key then none else get entries other := by
  induction entries with
  | nil => simp [remove, get]
  | cons first rest ih =>
    rw [remove] at ih ⊢
    by_cases gone : first.1 = key
    · rw [List.filter_cons_of_neg (by simp [gone]), ih, get_cons, gone]
      by_cases same : other = key
      · rw [if_pos same, if_pos same]
      · rw [if_neg same, if_neg same, if_neg (Ne.symm same)]
    · rw [List.filter_cons_of_pos (by simp [gone]), get_cons, ih, get_cons]
      by_cases same : other = key
      · rw [if_pos same, if_pos same, if_neg (same ▸ gone)]
      · rw [if_neg same, if_neg same]

omit [DecidableLT Key] in
theorem sorted_remove (sorted : Sorted entries) :
    Sorted (remove entries key) := by
  have sub := List.filter_sublist (p := fun entry : Key × Value =>
    decide (entry.1 ≠ key)) (l := entries)
  exact List.Pairwise.sublist (sub.map _) sorted

omit [LT Key] [DecidableLT Key] in
theorem mem_of_get (found : get entries key = some value) :
    (key, value) ∈ entries := by
  obtain ⟨entry, chosen, rfl⟩ := Option.map_eq_some_iff.mp found
  have named : entry.1 = key := by
    simpa using List.find?_some chosen
  rw [← named]
  exact List.mem_of_find?_eq_some chosen

omit [LT Key] [DecidableLT Key] in
theorem get_eq_none : get entries key = none ↔
    key ∉ entries.map (·.1) := by
  rw [get, Option.map_eq_none_iff, List.find?_eq_none, List.mem_map]
  constructor
  · intro none_ ⟨entry, member, named⟩
    exact none_ entry member (decide_eq_true named)
  · intro absent entry member named
    exact absent ⟨entry, member, of_decide_eq_true named⟩

theorem mem_keys_collect : other ∈ (collect entries).map (·.1) ↔
    other ∈ entries.map (·.1) := by
  induction entries using List.reverseRecOn with
  | nil => exact Iff.rfl
  | append_singleton entries last ih =>
    rw [collect_append, mem_keys_insert, ih, List.map_append,
      List.mem_append, List.map_singleton, List.mem_singleton, or_comm]

theorem collect_perm (once : (entries.map (·.1)).Nodup) :
    (collect entries).Perm entries := by
  induction entries using List.reverseRecOn with
  | nil => exact List.Perm.refl _
  | append_singleton entries last ih =>
    rw [List.map_append, List.map_singleton, List.nodup_append] at once
    obtain ⟨once, -, apart⟩ := once
    have absent : last.1 ∉ (collect entries).map (·.1) := by
      rw [mem_keys_collect]
      exact fun member => apart _ member _ (List.mem_singleton.mpr rfl) rfl
    rw [collect_append]
    exact (insert_perm absent).trans
      (((ih once).cons last).trans (List.perm_append_singleton last _).symm)

/-- Of the values put in under one key the last one stays. -/
theorem get_collect : get (collect entries) = collected entries := by
  induction entries using List.reverseRecOn with
  | nil => rfl
  | append_singleton entries last ih =>
    funext key
    rw [collect_append, get_insert, collected_concat, ← ih]
    rfl

omit [DecidableEq Key] [DecidableLT Key] in
theorem sorted_cons : Sorted (entry :: entries) ↔
    (∀ later ∈ entries, entry.1 < later.1) ∧ Sorted entries := by
  rw [Sorted, List.map_cons, List.pairwise_cons, List.forall_mem_map]
  rfl

section Order

variable [Std.Asymm (α := Key) (· < ·)]

/-- What is greater than all keys goes to the end. -/
theorem insert_last (greater : ∀ entry ∈ entries, entry.1 < key) :
    insert key value entries = entries ++ [(key, value)] := by
  induction entries with
  | nil => rfl
  | cons first rest ih =>
    have below := greater first List.mem_cons_self
    have apart : ¬ key < first.1 := Std.Asymm.asymm _ _ below
    have unlike : key ≠ first.1 := by
      rintro rfl
      exact Std.Asymm.asymm _ _ below below
    rw [insert, if_neg apart, if_neg unlike,
      ih fun entry member => greater entry (List.mem_cons_of_mem _ member)]
    rfl

theorem collect_of_sorted (sorted : Sorted entries) :
    collect entries = entries := by
  induction entries using List.reverseRecOn with
  | nil => rfl
  | append_singleton entries last ih =>
    rw [Sorted, List.map_append, List.pairwise_append] at sorted
    rw [collect_append, ih sorted.1]
    apply insert_last
    intro entry member
    exact sorted.2.2 _ (List.mem_map_of_mem member) _
      (List.mem_singleton.mpr rfl)

omit [DecidableLT Key] in
theorem get_of_mem (sorted : Sorted entries)
    (member : (key, value) ∈ entries) : get entries key = some value := by
  induction entries with
  | nil => cases member
  | cons first rest ih =>
    obtain ⟨least, sorted⟩ := sorted_cons.mp sorted
    rw [get_cons]
    rcases List.mem_cons.mp member with same | later
    · rw [← same, if_pos rfl]
    · have below := least _ later
      have unlike : first.1 ≠ key := by
        intro same
        rw [same] at below
        exact Std.Asymm.asymm _ _ below below
      rw [if_neg unlike, ih sorted later]

omit [DecidableLT Key] in
theorem eq_of_get {left right : List (Key × Value)} (sorted : Sorted left)
    (sorted_ : Sorted right) (same : get left = get right) :
    left = right := by
  have members : ∀ entry, entry ∈ left ↔ entry ∈ right := by
    intro entry
    constructor
    · intro member
      exact mem_of_get (same ▸ get_of_mem sorted member)
    · intro member
      exact mem_of_get (same.symm ▸ get_of_mem sorted_ member)
  have apart {entries : List (Key × Value)} (sorted : Sorted entries) :
      entries.Pairwise fun one two => one.1 < two.1 :=
    List.pairwise_map.mp sorted
  have nodup {entries : List (Key × Value)} (sorted : Sorted entries) :
      entries.Nodup := (apart sorted).imp fun {one two} below same => by
    rw [same] at below
    exact Std.Asymm.asymm _ _ below below
  have perm : left.Perm right :=
    (List.perm_ext_iff_of_nodup (nodup sorted) (nodup sorted_)).mpr members
  refine List.Perm.eq_of_pairwise ?_ (apart sorted) (apart sorted_) perm
  intro one two _ _ below above
  exact absurd above (Std.Asymm.asymm _ _ below)

theorem length_insert_of_mem (present : key ∈ entries.map (·.1))
    (sorted : Sorted entries) :
    (insert key value entries).length = entries.length := by
  induction entries with
  | nil => cases present
  | cons first rest ih =>
    obtain ⟨least, sorted⟩ := sorted_cons.mp sorted
    rw [insert]
    split
    · rename_i below
      rcases List.mem_cons.mp present with same | later
      · rw [same] at below
        exact absurd below (Std.Asymm.asymm _ _ below)
      · obtain ⟨entry, among, same⟩ := List.mem_map.mp later
        have greater := least entry among
        rw [same] at greater
        exact absurd below (Std.Asymm.asymm _ _ greater)
    · split
      · rfl
      · rename_i unlike
        have later := (List.mem_cons.mp present).resolve_left unlike
        rw [List.length_cons, List.length_cons, ih later sorted]

variable [Trans (α := Key) (· < ·) (· < ·) (· < ·)]
variable [Std.Trichotomous (α := Key) (· < ·)]

omit [Std.Asymm (α := Key) (· < ·)] in
theorem sorted_insert (sorted : Sorted entries) :
    Sorted (insert key value entries) := by
  induction entries with
  | nil => exact List.pairwise_singleton _ _
  | cons first rest ih =>
    obtain ⟨least, rest_⟩ := sorted_cons.mp sorted
    rw [insert]
    split
    · rename_i below
      refine sorted_cons.mpr ⟨?_, sorted⟩
      intro later member
      rcases List.mem_cons.mp member with rfl | among
      · exact below
      · exact Trans.trans below (least later among)
    · rename_i notBelow
      split
      · rename_i same
        refine sorted_cons.mpr ⟨?_, rest_⟩
        rw [show (key, value).1 = first.1 from same]
        exact least
      · rename_i unlike
        refine sorted_cons.mpr ⟨?_, ih rest_⟩
        intro later member
        rcases mem_insert member with rfl | among
        · by_contra above
          exact unlike (Std.Trichotomous.trichotomous _ _ notBelow above)
        · exact least later among

omit [Std.Asymm (α := Key) (· < ·)] in
theorem sorted_collect : Sorted (collect entries) := by
  induction entries using List.reverseRecOn with
  | nil => exact List.Pairwise.nil
  | append_singleton entries last ih =>
    rw [collect_append]
    exact sorted_insert ih

theorem length_collect_le : (collect entries).length ≤ entries.length := by
  induction entries using List.reverseRecOn with
  | nil => exact Nat.le_refl _
  | append_singleton entries last ih =>
    rw [collect_append, List.length_append, List.length_singleton]
    by_cases present : last.1 ∈ (collect entries).map (·.1)
    · rw [length_insert_of_mem present sorted_collect]
      omega
    · rw [(insert_perm present).length_eq, List.length_cons]
      omega

/-- No entry is lost exactly where no key comes twice. -/
theorem length_collect_iff : (collect entries).length = entries.length ↔
    (entries.map (·.1)).Nodup := by
  refine ⟨fun whole => ?_, fun once => (collect_perm once).length_eq⟩
  induction entries using List.reverseRecOn with
  | nil => exact List.nodup_nil
  | append_singleton entries last ih =>
    have short : (collect entries).length ≤ entries.length :=
      length_collect_le
    rw [collect_append, List.length_append, List.length_singleton] at whole
    by_cases present : last.1 ∈ (collect entries).map (·.1)
    · rw [length_insert_of_mem present sorted_collect] at whole
      omega
    · rw [(insert_perm present).length_eq, List.length_cons] at whole
      rw [mem_keys_collect] at present
      rw [List.map_append, List.map_singleton]
      refine (ih (by omega)).append (List.nodup_singleton _) ?_
      rw [List.disjoint_singleton]
      exact present

end Order

end BTreeMap

end Rust
