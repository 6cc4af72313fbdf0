import Mathlib.Data.List.Dedup
import Mathlib.Data.List.Induction

/-!
# The most recent of some entries

Entries come in one after the other, and of the latest with each key only so
many are kept, the most recent first.  An entry moves its key to the front,
and what falls off the end is no longer among the most recent.
-/

namespace Recency

variable {Entry Key : Type}

/-- The keys that came in, each once, by when they came last. -/
def recentKeys [DecidableEq Key] (keys : List Key) : List Key :=
  keys.dedup.reverse

/-- The entry is the latest with its key. -/
def IsLatest (key : Entry → Key) (entries : List Entry) (entry : Entry) :
    Prop :=
  ∃ before after, entries = before ++ entry :: after ∧
    ∀ later ∈ after, key later ≠ key entry

/-- The latest entries with the most recent keys. -/
structure IsHistory [DecidableEq Key] (most : Nat) (key : Entry → Key)
    (entries history : List Entry) : Prop where
  keys : history.map key = (recentKeys (entries.map key)).take most
  latest : ∀ entry ∈ history, IsLatest key entries entry

section Keys

variable [DecidableEq Key]

theorem dedup_concat (keys : List Key) (key : Key) :
    (keys ++ [key]).dedup = keys.dedup.filter (· ≠ key) ++ [key] := by
  induction keys with
  | nil => rfl
  | cons first keys ih =>
    rw [List.cons_append]
    by_cases again : first ∈ keys
    · rw [List.dedup_cons_of_mem (List.mem_append_left _ again), ih,
        List.dedup_cons_of_mem again]
    by_cases same : first = key
    · subst first
      rw [List.dedup_cons_of_mem
          (List.mem_append_right _ (List.mem_singleton_self key)), ih,
        List.dedup_cons_of_notMem again,
        List.filter_cons_of_neg (by simp)]
    · have fresh : first ∉ keys ++ [key] := by simp [again, same]
      rw [List.dedup_cons_of_notMem fresh, ih,
        List.dedup_cons_of_notMem again,
        List.filter_cons_of_pos (by simpa using same), List.cons_append]

theorem recentKeys_concat (keys : List Key) (key : Key) :
    recentKeys (keys ++ [key]) =
      key :: (recentKeys keys).filter (· ≠ key) := by
  rw [recentKeys, dedup_concat, List.reverse_append, List.reverse_singleton,
    List.singleton_append, recentKeys, List.filter_reverse]

theorem nodup_recentKeys (keys : List Key) : (recentKeys keys).Nodup :=
  List.nodup_reverse.mpr (List.nodup_dedup keys)

/-- Taking one key out of more makes room for one at most. -/
theorem take_filter_take {keys : List Key} (distinct : keys.Nodup) (key : Key)
    (most : Nat) : ((keys.take (most + 1)).filter (· ≠ key)).take most =
      (keys.filter (· ≠ key)).take most := by
  induction keys generalizing most with
  | nil => rfl
  | cons first keys ih =>
    have ⟨fresh, distinct⟩ := List.nodup_cons.mp distinct
    by_cases same : first = key
    · subst first
      have kept : ∀ keys' : List Key, keys'.Sublist keys →
          keys'.filter (· ≠ key) = keys' := by
        intro keys' sublist
        refine List.filter_eq_self.mpr fun other member => ?_
        exact decide_eq_true fun same =>
          fresh (same ▸ sublist.subset member)
      rw [List.take_succ_cons, List.filter_cons_of_neg (by simp),
        List.filter_cons_of_neg (by simp), kept _ (List.take_sublist _ _),
        kept _ (List.Sublist.refl _), List.take_take, Nat.min_self]
    · rw [List.take_succ_cons, List.filter_cons_of_pos (by simpa using same),
        List.filter_cons_of_pos (by simpa using same)]
      cases most with
      | zero => rfl
      | succ most => rw [List.take_succ_cons, List.take_succ_cons,
          ih distinct most]

end Keys

section Latest

variable {key : Entry → Key} {entries : List Entry} {entry other : Entry}

theorem IsLatest.last (key : Entry → Key) (entries : List Entry)
    (entry : Entry) : IsLatest key (entries ++ [entry]) entry :=
  ⟨entries, [], rfl, List.forall_mem_nil _⟩

/-- An entry with another key leaves the latest with a key. -/
theorem IsLatest.concat (isLatest : IsLatest key entries other)
    (differs : key other ≠ key entry) :
    IsLatest key (entries ++ [entry]) other := by
  obtain ⟨before, after, rfl, last⟩ := isLatest
  refine ⟨before, after ++ [entry], by simp, ?_⟩
  intro later member
  rcases List.mem_append.mp member with member | member
  · exact last later member
  · rw [List.mem_singleton.mp member]
    exact differs.symm

theorem IsLatest.eq_last (isLatest : IsLatest key (entries ++ [entry]) other)
    (same : key other = key entry) : other = entry := by
  obtain ⟨before, after, split, last⟩ := isLatest
  rcases List.eq_nil_or_concat' after with rfl | ⟨rest, final, rfl⟩
  · exact (List.append_inj' split rfl).2 |> List.singleton_inj.mp |>.symm
  · rw [← List.cons_append, ← List.append_assoc] at split
    have ends := List.singleton_inj.mp (List.append_inj' split rfl).2
    exact absurd (ends ▸ same).symm (last final (by simp))

end Latest

namespace IsHistory

variable [DecidableEq Key] {most : Nat} {key : Entry → Key}
  {entries history : List Entry}

theorem empty (most : Nat) (key : Entry → Key) :
    IsHistory most key [] [] :=
  ⟨by simp [recentKeys], List.forall_mem_nil _⟩

theorem distinct (isHistory : IsHistory most key entries history) :
    (history.map key).Nodup := by
  rw [isHistory.keys]
  exact (nodup_recentKeys _).sublist (List.take_sublist _ _)

theorem length_le (isHistory : IsHistory most key entries history) :
    history.length ≤ most := by
  have keys := congrArg List.length isHistory.keys
  rw [List.length_map, List.length_take] at keys
  omega

theorem push (isHistory : IsHistory (most + 1) key entries history)
    (entry : Entry) : IsHistory (most + 1) key (entries ++ [entry])
      ((entry :: history.filter fun other => key other ≠ key entry).take
        (most + 1)) where
  keys := by
    have others : (history.filter fun other => key other ≠ key entry).map key
        = (history.map key).filter (· ≠ key entry) := by
      rw [List.filter_map]
      rfl
    rw [List.map_take, List.map_cons, others, isHistory.keys,
      List.map_append, List.map_singleton, recentKeys_concat,
      List.take_succ_cons, List.take_succ_cons,
      take_filter_take (nodup_recentKeys _)]
  latest := by
    intro other member
    rcases List.mem_cons.mp (List.mem_of_mem_take member) with rfl | kept
    · exact IsLatest.last key entries other
    · have ⟨held, differs⟩ := List.mem_filter.mp kept
      exact (isHistory.latest other held).concat (of_decide_eq_true differs)

theorem renew {front : Entry}
    (isHistory : IsHistory (most + 1) key entries (front :: history))
    (same : key front = key entry) :
    IsHistory (most + 1) key (entries ++ [entry]) (entry :: history) := by
  have pushed := isHistory.push entry
  have ⟨fresh, _⟩ := List.nodup_cons.mp isHistory.distinct
  have kept : history.filter (fun other => key other ≠ key entry) =
      history := by
    refine List.filter_eq_self.mpr fun other member => ?_
    refine decide_eq_true fun again => fresh ?_
    rw [same, ← again]
    exact List.mem_map_of_mem member
  rwa [List.filter_cons_of_neg (by simpa using same), kept,
    List.take_of_length_le (l := entry :: history) isHistory.length_le]
    at pushed

theorem head?_eq (isHistory : IsHistory (most + 1) key entries history) :
    history.head? = entries.getLast? := by
  have keys := isHistory.keys
  rcases List.eq_nil_or_concat' entries with rfl | ⟨earlier, last, rfl⟩
  · rw [List.map_nil, show recentKeys ([] : List Key) = [] from rfl,
      List.take_nil, List.map_eq_nil_iff] at keys
    rw [keys]
    rfl
  · rw [List.map_append, List.map_singleton, recentKeys_concat,
      List.take_succ_cons] at keys
    obtain ⟨front, rest, rfl, same, _⟩ := List.map_eq_cons_iff.mp keys
    rw [List.head?_cons, List.getLast?_concat,
      (isHistory.latest front List.mem_cons_self).eq_last same]

end IsHistory

end Recency
