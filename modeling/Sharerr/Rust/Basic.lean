import Mathlib.Data.List.Nodup
import Mathlib.Data.List.Basic
import Mathlib.Data.List.DropRight

/-!
# The pieces of Rust's standard library the source relies on

Signed 64-bit arithmetic that saturates, the operations on text, and the map
a `collect` into a `HashMap` builds.
-/

namespace Rust

def i64Min : Int := -9223372036854775808

def i64Max : Int := 9223372036854775807

/-- `i64::saturating_add`. -/
def saturatingAdd (left right : Int) : Int :=
  max i64Min (min i64Max (left + right))

/-- `i64::saturating_sub`. -/
def saturatingSub (left right : Int) : Int :=
  max i64Min (min i64Max (left - right))

/-- The code points of Unicode's `White_Space` property. -/
def isWhitespace (character : Char) : Bool :=
  let code := character.toNat
  (9 ≤ code && code ≤ 13) || code = 0x20 || code = 0x85 || code = 0xA0 ||
    code = 0x1680 || (0x2000 ≤ code && code ≤ 0x200A) || code = 0x2028 ||
    code = 0x2029 || code = 0x202F || code = 0x205F || code = 0x3000

/-- `str::trim`. -/
def trim (text : String) : String :=
  String.ofList
    (((text.toList.dropWhile isWhitespace).reverse.dropWhile
      isWhitespace).reverse)

/-- A prefix of what was trimmed in front begins as it does. -/
theorem dropWhile_of_prefix {drops : Char → Bool} {part text : List Char}
    (front : part <+: text) (trimmed : text.dropWhile drops = text) :
    part.dropWhile drops = part := by
  rw [List.dropWhile_eq_self_iff] at trimmed ⊢
  intro nonempty
  rw [front.getElem nonempty]
  exact trimmed _

theorem trim_trim (text : String) : trim (trim text) = trim text := by
  have back (part : List Char) :
      (part.reverse.dropWhile isWhitespace).reverse =
        part.rdropWhile isWhitespace :=
    rfl
  have front :
      ((text.toList.dropWhile isWhitespace).rdropWhile
        isWhitespace).dropWhile isWhitespace =
          (text.toList.dropWhile isWhitespace).rdropWhile isWhitespace :=
    dropWhile_of_prefix (List.rdropWhile_prefix _ _)
      (List.dropWhile_idempotent _ _)
  rw [trim, trim, String.toList_ofList, back, back, front,
    List.rdropWhile_idempotent]

/-- `str::strip_prefix`. -/
def stripPrefix (head text : String) : Option String :=
  if head.toList.isPrefixOf text.toList then
    some (String.ofList (text.toList.drop head.length))
  else none

/-- `i64::try_from` of a `u64`. -/
def i64OfU64 (value : Nat) : Option Int :=
  if (value : Int) ≤ i64Max then some value else none

/-- A `u64` as `saturating_i64` stores it. -/
def saturatingI64 (value : Nat) : Nat :=
  min value i64Max.toNat

/-- `u64::saturating_add`. -/
def saturatingAddU64 (left right : Nat) : Nat :=
  min 18446744073709551615 (left + right)

/-- `str::split_once` at the first character `splits` holds of. -/
def splitOnce (splits : Char → Bool) (text : String) :
    Option (String × String) :=
  let front := text.toList.takeWhile fun character => !splits character
  match text.toList.drop front.length with
  | [] => none
  | _ :: back => some (String.ofList front, String.ofList back)

def digit (character : Char) : Option Nat :=
  if '0' ≤ character ∧ character ≤ '9' then some (character.toNat - '0'.toNat)
  else none

/-- `str::parse::<u32>`: digits, with one leading `+` let through. -/
def parseU32 (text : String) : Option Nat := do
  let digits := match text.toList with
    | '+' :: rest => rest
    | all => all
  if digits.isEmpty then none
  else
    let values ← digits.mapM digit
    let value := values.foldl (fun total next => total * 10 + next) 0
    if value < 4294967296 then some value else none

/-- `str::to_ascii_lowercase`. -/
def toAsciiLowercase (text : String) : String :=
  String.ofList (text.toList.map fun character =>
    if 'A' ≤ character ∧ character ≤ 'Z' then
      Char.ofNat (character.toNat + 32)
    else character)

theorem toNat_ofNat {code : Nat} (small : code < 55296) :
    (Char.ofNat code).toNat = code := by
  have valid : code.isValidChar := Or.inl small
  rw [Char.ofNat, dif_pos valid]
  rfl

theorem toAsciiLowercase_idem (text : String) :
    toAsciiLowercase (toAsciiLowercase text) = toAsciiLowercase text := by
  simp only [toAsciiLowercase, String.toList_ofList, List.map_map]
  congr 1
  apply List.map_congr_left
  intro character _
  simp only [Function.comp]
  by_cases upper : 'A' ≤ character ∧ character ≤ 'Z'
  · rw [if_pos upper, if_neg]
    intro again
    have atLeast : 65 ≤ character.toNat := upper.1
    have atMost : character.toNat ≤ 90 := upper.2
    have lowered : (Char.ofNat (character.toNat + 32)).toNat ≤ 90 := again.2
    rw [toNat_ofNat (by omega)] at lowered
    omega
  · rw [if_neg upper, if_neg upper]

/-- `str::eq_ignore_ascii_case`. -/
def eqIgnoreAsciiCase (left right : String) : Bool :=
  toAsciiLowercase left = toAsciiLowercase right

variable {Key Value : Type} [DecidableEq Key]

/-- The entry a map collected from `pairs` has for `key`: a later pair
replaces an earlier one. -/
def collected (pairs : List (Key × Value)) (key : Key) : Option Value :=
  (pairs.reverse.find? fun pair => pair.1 = key).map (·.2)

/-- `HashMap::insert`, on maps kept as functions. -/
def insert (map : Key → Option Value) (key : Key) (value : Value) :
    Key → Option Value :=
  fun other => if other = key then some value else map other

@[simp] theorem insert_same (map : Key → Option Value) (key : Key)
    (value : Value) : insert map key value key = some value := by
  simp [insert]

variable {key : Key} {pairs : List (Key × Value)} {value : Value} {α ε : Type}

theorem insert_other (map : Key → Option Value) {other : Key}
    (different : other ≠ key) (value : Value) :
    insert map key value other = map other := by
  simp [insert, different]

theorem collected_eq_none_iff :
    collected pairs key = none ↔ ∀ pair ∈ pairs, pair.1 ≠ key := by
  simp [collected]

theorem mem_of_collected_eq_some (found : collected pairs key = some value) :
    (key, value) ∈ pairs := by
  obtain ⟨pair, chosen, rfl⟩ := Option.map_eq_some_iff.mp found
  have named : pair.1 = key := by
    simpa using List.find?_some chosen
  have member := List.mem_of_find?_eq_some chosen
  rw [List.mem_reverse] at member
  rw [← named]
  exact member

theorem collected_concat (pairs : List (Key × Value)) (pair : Key × Value) :
    collected (pairs ++ [pair]) = insert (collected pairs) pair.1 pair.2 := by
  funext key
  by_cases same : pair.1 = key
  · simp [collected, insert, same]
  · simp [collected, insert, same, Ne.symm same]

theorem collected_cons (pair : Key × Value) (pairs : List (Key × Value))
    (key : Key) :
    collected (pair :: pairs) key =
      (collected pairs key).or
        (if pair.1 = key then some pair.2 else none) := by
  simp only [collected, List.reverse_cons, List.find?_append,
    Option.map_or, List.find?_singleton, decide_eq_true_eq]
  split <;> rfl

theorem collected_last (earlier : List (Key × Value)) (value : Value)
    {later : List (Key × Value)} (unnamed : ∀ pair ∈ later, pair.1 ≠ key) :
    collected (earlier ++ (key, value) :: later) key = some value := by
  induction earlier with
  | nil =>
    rw [List.nil_append, collected_cons,
      collected_eq_none_iff.mpr unnamed]
    simp
  | cons pair earlier ih =>
    rw [List.cons_append, collected_cons, ih]
    rfl

/-- In a sorted list of pairs, the entry that stays is the last one. -/
theorem relation_of_collected {relation : Value → Value → Prop}
    (reflexive : ∀ value, relation value value)
    (sorted : pairs.Pairwise fun left right => relation left.2 right.2)
    (found : collected pairs key = some value) :
    ∀ other, (key, other) ∈ pairs → relation other value := by
  induction pairs with
  | nil => simp
  | cons pair pairs ih =>
    rw [List.pairwise_cons] at sorted
    rw [collected_cons] at found
    cases rest : collected pairs key with
    | none =>
      -- no later pair has this key, so the first one is the entry
      intro other member
      rcases List.mem_cons.mp member with rfl | later
      · simp [rest] at found
        exact found ▸ reflexive _
      · exact absurd rfl (collected_eq_none_iff.mp rest _ later)
    | some last =>
      simp only [rest, Option.some_or, Option.some.injEq] at found
      subst found
      intro other member
      rcases List.mem_cons.mp member with rfl | later
      · exact sorted.1 _ (mem_of_collected_eq_some rest)
      · exact ih sorted.2 rest other later

theorem eq_ok_of_mapError {ε' : Type} {print : ε → ε'} {result : Except ε α}
    {value : α} (ended : result.mapError print = .ok value) :
    result = .ok value := by
  cases result with
  | error reason => cases ended
  | ok other =>
    cases ended
    rfl

theorem of_toOption_map {β : Type} {result : Except ε α} {read : α → β}
    {seen : β} (ended : (result.map read).toOption = some seen) :
    ∃ value, result = .ok value ∧ read value = seen := by
  cases result with
  | error reason => cases ended
  | ok value =>
    cases ended
    exact ⟨value, rfl, rfl⟩

/-- A chain of `?`s that ended well: the first step ended well and so did the
rest. -/
theorem bind_eq_ok {β : Type} {first : Except ε α} {rest : α → Except ε β}
    {result : β} (ended : (first >>= rest) = .ok result) :
    ∃ value, first = .ok value ∧ rest value = .ok result := by
  cases first with
  | error reason => cases ended
  | ok value => exact ⟨value, rfl, ended⟩

end Rust
