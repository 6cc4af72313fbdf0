import Sharerr.Rust.IndexMap

/-!
# Values that are laid over each other

A value of `figment` is a text, something else that has no parts, or a
dictionary.  Where both sides of a merge are dictionaries they are merged key by
key; else the later value stands.

What is at the end of a path of keys after a merge depends on what was there on
either side (`look_merge`).  A side without the path says how many of its keys
lead through dictionaries: a dictionary over a value that is none takes its
place.
-/

namespace Figment

open Rust (IndexMap)

inductive Value where
  | string (text : String)
  | char (character : Char)
  /-- A number, a boolean, an array or nothing. -/
  | other
  | dict (entries : List (String × Value))

/-- The text a value that is to be a string is read as. -/
def Value.asStr : Value → Option String
  | .string text => some text
  | .char character => some (String.ofList [character])
  | .other => none
  | .dict _ => none

mutual

/-- `Figment::merge`, on one value. -/
def Value.merge : Value → Value → Value
  | .dict lower, .dict upper => .dict (mergeEntries lower upper ++ lower)
  | _, upper => upper

/-- The upper entries, each laid over the lower one of its key.  Of entries
with the same key the first one counts. -/
def mergeEntries (lower : List (String × Value)) :
    List (String × Value) → List (String × Value)
  | [] => []
  | (key, upper) :: rest =>
    (key, match IndexMap.get lower key with
      | some value => value.merge upper
      | none => upper) :: mergeEntries lower rest

end

/-- `figment::util::nest`: an empty key ends the path. -/
def nest : List String → Value → Value
  | [], value => value
  | key :: keys, value =>
    if key = "" then value else .dict [(key, nest keys value)]

/-- What is at the end of a path. -/
inductive Look where
  /-- That many keys lead to a dictionary, and the next one is not in it. -/
  | missing (depth : Nat)
  /-- That many keys lead to a value that is no dictionary. -/
  | blocked (depth : Nat)
  | found (value : Value)

/-- The same, seen from one key further up. -/
def Look.below : Look → Look
  | .missing depth => .missing (depth + 1)
  | .blocked depth => .blocked (depth + 1)
  | .found value => .found value

def Value.look : Value → List String → Look
  | value, [] => .found value
  | .dict entries, key :: keys =>
    match IndexMap.get entries key with
    | none => .missing 0
    | some inner => (inner.look keys).below
  | _, _ :: _ => .blocked 0

/-- What is at the end of a path once `upper` is laid over `lower`. -/
def Look.merge : Look → Look → Look
  | .found lower, .found upper => .found (lower.merge upper)
  | _, .found upper => .found upper
  | _, .blocked depth => .blocked depth
  | .found lower, .missing _ => .found lower
  | .missing depth, .missing other => .missing (max depth other)
  | .blocked depth, .missing other =>
    if depth ≤ other then .missing other else .blocked depth

theorem get_mergeEntries (lower upper : List (String × Value))
    (key : String) :
    IndexMap.get (mergeEntries lower upper) key =
      (IndexMap.get upper key).map fun value =>
        match IndexMap.get lower key with
        | some below => below.merge value
        | none => value := by
  induction upper with
  | nil => rfl
  | cons entry rest ih =>
    obtain ⟨first, value⟩ := entry
    rw [mergeEntries, IndexMap.get_cons, IndexMap.get_cons, ih]
    by_cases same : first = key
    · subst same
      rw [if_pos rfl, if_pos rfl, Option.map_some]
    · rw [if_neg same, if_neg same]

theorem get_append (front back : List (String × Value)) (key : String) :
    IndexMap.get (front ++ back) key =
      (IndexMap.get front key).or (IndexMap.get back key) := by
  rw [IndexMap.get, List.find?_append, Option.map_or]
  rfl

namespace Look

theorem below_merge (lower upper : Look) :
    (lower.merge upper).below = lower.below.merge upper.below := by
  cases upper with
  | found upper => cases lower <;> rfl
  | blocked depth => cases lower <;> rfl
  | missing other =>
    cases lower with
    | found lower => rfl
    | missing depth =>
      simp only [merge, below, Look.missing.injEq]
      omega
    | blocked depth =>
      simp only [merge, below, Nat.add_le_add_iff_right]
      by_cases reached : depth ≤ other
      · rw [if_pos reached, if_pos reached]
      · rw [if_neg reached, if_neg reached]

theorem merge_missing_missing (lower : Look) (depth other : Nat) :
    (lower.merge (.missing depth)).merge (.missing other) =
      lower.merge (.missing (max depth other)) := by
  cases lower with
  | found value => rfl
  | missing level =>
    simp only [merge, Look.missing.injEq]
    omega
  | blocked level =>
    by_cases first : level ≤ depth
    · have both : level ≤ max depth other := by omega
      simp [merge, first, both]
    · by_cases second : level ≤ other
      · have later : max depth other = other := by omega
        simp [merge, first, second, later]
      · have neither : ¬ level ≤ max depth other := by omega
        rw [merge, if_neg first, merge, if_neg second, merge,
          if_neg neither]

theorem merge_blocked (lower : Look) (depth : Nat) :
    lower.merge (.blocked depth) = .blocked depth := by
  cases lower <;> rfl

/-- A dictionary without the first key changes nothing. -/
theorem below_merge_missing (lower : Look) :
    lower.below.merge (.missing 0) = lower.below := by
  cases lower with
  | found value => rfl
  | missing depth => simp [below, merge]
  | blocked depth => simp [below, merge]

theorem missing_merge (upper : Look) :
    (missing 0).merge upper = upper := by
  cases upper with
  | found value => rfl
  | missing depth => simp [merge]
  | blocked depth => rfl

theorem blocked_merge (upper : Look) :
    (blocked 0).merge upper = upper := by
  cases upper with
  | found value => rfl
  | missing depth => simp [merge]
  | blocked depth => rfl

end Look

theorem look_cons (entries : List (String × Value)) (key : String)
    (keys : List String) :
    (Value.dict entries).look (key :: keys) =
      match IndexMap.get entries key with
      | none => .missing 0
      | some inner => (inner.look keys).below :=
  rfl

theorem look_of_leaf {value : Value} (leaf : ∀ entries, value ≠ .dict entries)
    (key : String) (keys : List String) :
    value.look (key :: keys) = .blocked 0 := by
  cases value with
  | string | char | other => rfl
  | dict entries => exact absurd rfl (leaf entries)

theorem merge_leaf {upper : Value} (leaf : ∀ entries, upper ≠ .dict entries)
    (lower : Value) : lower.merge upper = upper := by
  cases upper with
  | string | char | other => cases lower <;> rfl
  | dict entries => exact absurd rfl (leaf entries)

theorem leaf_merge {lower : Value} (leaf : ∀ entries, lower ≠ .dict entries)
    (upper : Value) : lower.merge upper = upper := by
  cases lower with
  | string | char | other => cases upper <;> rfl
  | dict entries => exact absurd rfl (leaf entries)

theorem eq_dict_or_leaf (value : Value) :
    (∃ entries, value = .dict entries) ∨ ∀ entries, value ≠ .dict entries := by
  cases value with
  | string | char | other => exact .inr nofun
  | dict entries => exact .inl ⟨entries, rfl⟩

/-- What lies below a value does not change the text it is read as. -/
theorem asStr_merge (lower upper : Value) :
    (lower.merge upper).asStr = upper.asStr := by
  cases lower <;> cases upper <;> rfl

/-- A merge is seen path by path. -/
theorem look_merge (lower upper : Value) (path : List String) :
    (lower.merge upper).look path =
      (lower.look path).merge (upper.look path) := by
  induction path generalizing lower upper with
  | nil => rfl
  | cons key keys ih =>
    rcases eq_dict_or_leaf upper with ⟨above, rfl⟩ | leaf
    · rcases eq_dict_or_leaf lower with ⟨below, rfl⟩ | leaf
      · rw [Value.merge, look_cons, look_cons, look_cons, get_append,
          get_mergeEntries]
        cases IndexMap.get above key with
        | none =>
          cases IndexMap.get below key with
          | none => rfl
          | some value => exact (Look.below_merge_missing _).symm
        | some value =>
          cases IndexMap.get below key with
          | none => exact (Look.missing_merge _).symm
          | some old =>
            change ((old.merge value).look keys).below = _
            rw [ih, Look.below_merge]
      · rw [leaf_merge leaf, look_of_leaf leaf, Look.blocked_merge]
    · rw [merge_leaf leaf, look_of_leaf leaf, Look.merge_blocked]

theorem look_nest_self {keys : List String} (named : "" ∉ keys)
    (value : Value) : (nest keys value).look keys = .found value := by
  induction keys with
  | nil => rfl
  | cons key keys ih =>
    rw [List.mem_cons, not_or] at named
    rw [nest, if_neg (Ne.symm named.1), look_cons, IndexMap.get_cons,
      if_pos rfl]
    change ((nest keys value).look keys).below = _
    rw [ih named.2]
    rfl

end Figment
