import Mathlib.Data.List.Induction
import Sharerr.Figment.Value

/-!
# Values laid over each other in turn

Of the entries that put a value at the end of a path, or in its way, the last
one decides what is found there.
-/

namespace Figment

namespace Look

/-- A value is at the end of the path, or in its way. -/
def IsSet (look : Look) : Prop := ∀ depth, look ≠ .missing depth

def IsFound (look : Look) : Prop := ∃ value, look = .found value

@[simp] theorem not_isSet_missing (depth : Nat) : ¬ (missing depth).IsSet :=
  fun isSet => isSet depth rfl

theorem eq_missing_of_not_isSet {look : Look} (unset : ¬ look.IsSet) :
    ∃ depth, look = .missing depth := by
  cases look with
  | missing depth => exact ⟨depth, rfl⟩
  | blocked | found => exact absurd nofun unset

theorem isSet_merge {upper : Look} (isSet : upper.IsSet) (lower : Look) :
    (lower.merge upper).IsSet := by
  cases upper with
  | missing depth => exact absurd rfl (isSet depth)
  | blocked depth =>
    rw [merge_blocked]
    nofun
  | found value => cases lower <;> nofun

theorem not_isSet_merge {lower upper : Look} (below : ¬ lower.IsSet)
    (above : ¬ upper.IsSet) : ¬ (lower.merge upper).IsSet := by
  obtain ⟨depth, rfl⟩ := eq_missing_of_not_isSet below
  obtain ⟨other, rfl⟩ := eq_missing_of_not_isSet above
  exact not_isSet_missing _

/-- What is found is read as the text that was laid on top. -/
theorem exists_merge_found (lower : Look) (value : Value) :
    ∃ merged, lower.merge (.found value) = .found merged ∧
      merged.asStr = value.asStr := by
  cases lower with
  | found below => exact ⟨below.merge value, rfl, asStr_merge below value⟩
  | missing | blocked => exact ⟨value, rfl, rfl⟩

end Look

/-- Each of the values laid over the ones before. -/
def laid (values : List Value) : Value := values.foldl Value.merge (.dict [])

theorem laid_concat (values : List Value) (value : Value) :
    laid (values ++ [value]) = (laid values).merge value := by
  rw [laid, List.foldl_append]
  rfl

section Entries

variable {Entry : Type} {value : Entry → Value} {path : List String}
  {entries : List Entry} {entry other : Entry}

/-- The last of the entries that put something at the end of the path, or in
its way. -/
def IsLastSet (value : Entry → Value) (path : List String)
    (entries : List Entry) (entry : Entry) : Prop :=
  ∃ before after, entries = before ++ entry :: after ∧
    ((value entry).look path).IsSet ∧
    ∀ later ∈ after, ¬ ((value later).look path).IsSet

theorem IsLastSet.mem (last : IsLastSet value path entries entry) :
    entry ∈ entries := by
  obtain ⟨before, after, rfl, _⟩ := last
  exact List.mem_append_right _ List.mem_cons_self

theorem IsLastSet.isSet (last : IsLastSet value path entries entry) :
    ((value entry).look path).IsSet := by
  obtain ⟨_, _, _, isSet, _⟩ := last
  exact isSet

theorem IsLastSet.concat (isSet : ((value entry).look path).IsSet)
    (entries : List Entry) :
    IsLastSet value path (entries ++ [entry]) entry :=
  ⟨entries, [], rfl, isSet, List.forall_mem_nil _⟩

theorem IsLastSet.eq_of_concat
    (last : IsLastSet value path (entries ++ [entry]) other)
    (isSet : ((value entry).look path).IsSet) : other = entry := by
  obtain ⟨before, after, split, _, unset⟩ := last
  rcases List.eq_nil_or_concat' after with rfl | ⟨rest, final, rfl⟩
  · exact (List.singleton_inj.mp (List.append_inj' split rfl).2).symm
  · rw [← List.cons_append, ← List.append_assoc] at split
    have ends := List.singleton_inj.mp (List.append_inj' split rfl).2
    exact absurd (ends ▸ isSet) (unset final (by simp))

theorem exists_isLastSet
    (some_ : ∃ entry ∈ entries, ((value entry).look path).IsSet) :
    ∃ entry, IsLastSet value path entries entry := by
  induction entries using List.reverseRecOn with
  | nil =>
    obtain ⟨_, member, _⟩ := some_
    cases member
  | append_singleton entries final ih =>
    by_cases isSet : ((value final).look path).IsSet
    · exact ⟨final, IsLastSet.concat isSet entries⟩
    · obtain ⟨entry, member, entrySet⟩ := some_
      rcases List.mem_append.mp member with earlier | same
      · obtain ⟨last, before, after, rfl, lastSet, unset⟩ :=
          ih ⟨entry, earlier, entrySet⟩
        refine ⟨last, before, after ++ [final], by simp, lastSet, ?_⟩
        intro later among
        rcases List.mem_append.mp among with among | same
        · exact unset later among
        · exact List.mem_singleton.mp same ▸ isSet
      · exact absurd (List.mem_singleton.mp same ▸ entrySet) isSet

/-- Nothing is there where none of the entries puts anything. -/
theorem not_isSet_laid {key : String} {keys : List String}
    (none_ : ∀ entry ∈ entries, ¬ ((value entry).look (key :: keys)).IsSet) :
    ¬ ((laid (entries.map value)).look (key :: keys)).IsSet := by
  induction entries using List.reverseRecOn with
  | nil => exact Look.not_isSet_missing 0
  | append_singleton entries final ih =>
    rw [List.map_append, List.map_singleton, laid_concat, look_merge]
    apply Look.not_isSet_merge
    · exact ih fun entry member => none_ entry (List.mem_append_left _ member)
    · exact none_ final (List.mem_append_right _ (List.mem_singleton_self _))

theorem isSet_laid_concat (isSet : ((value entry).look path).IsSet)
    (entries : List Entry) :
    ((laid ((entries ++ [entry]).map value)).look path).IsSet := by
  rw [List.map_append, List.map_singleton, laid_concat, look_merge]
  exact Look.isSet_merge isSet _

/-- What the last of them puts at the end of the path is found there. -/
theorem IsLastSet.exists_look_laid {found : Value}
    (last : IsLastSet value path entries entry)
    (there : (value entry).look path = .found found) :
    ∃ merged, (laid (entries.map value)).look path = .found merged ∧
      merged.asStr = found.asStr := by
  obtain ⟨before, after, rfl, _, unset⟩ := last
  induction after using List.reverseRecOn with
  | nil =>
    rw [List.map_append, List.map_singleton, laid_concat, look_merge, there]
    exact Look.exists_merge_found _ found
  | append_singleton after final ih =>
    obtain ⟨merged, earlier, same⟩ := ih fun later member =>
      unset later (List.mem_append_left _ member)
    obtain ⟨depth, missing⟩ := Look.eq_missing_of_not_isSet
      (unset final (List.mem_append_right _ (List.mem_singleton_self _)))
    refine ⟨merged, ?_, same⟩
    rw [← List.cons_append, ← List.append_assoc, List.map_append,
      List.map_singleton, laid_concat, look_merge, missing, earlier]
    rfl

end Entries

end Figment
