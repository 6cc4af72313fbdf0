import Mathlib.Data.List.Basic

/-!
# `slice::chunks`

A list cut into pieces of one length, of which the last may be shorter, and how
many of them there are.
-/

namespace Rust

variable {α β : Type}

/-- So many chunks at most. -/
def takeChunks (size : Nat) : Nat → List α → List (List α)
  | 0, _ => []
  | _ + 1, [] => []
  | budget + 1, item :: items =>
    (item :: items).take size ::
      takeChunks size budget ((item :: items).drop size)

/-- A chunk takes up an item at least. -/
def chunks (size : Nat) (items : List α) : List (List α) :=
  takeChunks size items.length items

/-- `u64::div_ceil`. -/
def divCeil (size part : Nat) : Nat :=
  if 0 < size % part then size / part + 1 else size / part

section Chunks

variable {size : Nat} {items : List α}

@[simp] theorem chunks_nil : chunks size ([] : List α) = [] :=
  rfl

theorem takeChunks_enough (positive : 0 < size) {budget : Nat}
    (enough : items.length ≤ budget) :
    takeChunks size budget items = chunks size items := by
  have stable : ∀ budget other : Nat, ∀ items : List α,
      items.length ≤ budget → items.length ≤ other →
        takeChunks size budget items = takeChunks size other items := by
    intro budget
    induction budget with
    | zero =>
      intro other items none_ _
      rw [List.length_eq_zero_iff.mp (Nat.le_zero.mp none_)]
      cases other with
      | zero => rfl
      | succ other => rfl
    | succ budget ih =>
      intro other items enough enough_
      cases items with
      | nil =>
        cases other with
        | zero => rfl
        | succ other => rfl
      | cons item items =>
        cases other with
        | zero => exact absurd enough_ (Nat.not_succ_le_zero _)
        | succ other =>
          have shorter : ((item :: items).drop size).length ≤
              items.length := by
            rw [List.length_drop, List.length_cons]
            omega
          rw [List.length_cons] at enough enough_
          rw [takeChunks, takeChunks,
            ih other _ (by omega) (by omega)]
  exact stable _ _ items enough (Nat.le_refl _)

theorem chunks_cons (positive : 0 < size) (nonempty : items ≠ []) :
    chunks size items =
      items.take size :: chunks size (items.drop size) := by
  cases items with
  | nil => exact absurd rfl nonempty
  | cons item items =>
    have shorter : ((item :: items).drop size).length ≤ items.length := by
      rw [List.length_drop, List.length_cons]
      omega
    rw [chunks, List.length_cons, takeChunks,
      takeChunks_enough positive shorter]

theorem chunks_append (positive : 0 < size) {chunk : List α}
    (full : chunk.length = size) :
    chunks size (chunk ++ items) = chunk :: chunks size items := by
  have nonempty : chunk ++ items ≠ [] := by
    intro empty
    rw [(List.append_eq_nil_iff.mp empty).1] at full
    exact absurd full.symm (Nat.ne_of_gt positive)
  rw [chunks_cons positive nonempty, List.take_left' full,
    List.drop_left' full]

theorem chunks_of_short (positive : 0 < size) (nonempty : items ≠ [])
    (short : items.length ≤ size) : chunks size items = [items] := by
  rw [chunks_cons positive nonempty, List.take_of_length_le short,
    List.drop_of_length_le short, chunks_nil]

/-- Records of one length, put one after the other, are the chunks. -/
theorem chunks_flatMap (positive : 0 < size) {write : β → List α}
    {records : List β}
    (full : ∀ record ∈ records, (write record).length = size) :
    chunks size (records.flatMap write) = records.map write := by
  induction records with
  | nil => rfl
  | cons record records ih =>
    have later := ih fun other member =>
      full other (List.mem_cons_of_mem _ member)
    rw [List.flatMap_cons,
      chunks_append positive (full record List.mem_cons_self), later,
      List.map_cons]

theorem length_flatMap_of_full {write : β → List α} {records : List β}
    (full : ∀ record ∈ records, (write record).length = size) :
    (records.flatMap write).length = records.length * size := by
  induction records with
  | nil => simp
  | cons record records ih =>
    have later := ih fun other member =>
      full other (List.mem_cons_of_mem _ member)
    rw [List.flatMap_cons, List.length_append,
      full record List.mem_cons_self, later, List.length_cons,
      Nat.succ_mul, Nat.add_comm]

/-- What holds of nothing, and of a list if it holds of what comes after the
first chunk. -/
theorem induction_by_chunks {motive : List α → Prop} (positive : 0 < size)
    (nil : motive []) (step : ∀ items, items ≠ [] →
      motive (items.drop size) → motive items) (items : List α) :
    motive items := by
  have bounded : ∀ budget : Nat, ∀ items : List α, items.length ≤ budget →
      motive items := by
    intro budget
    induction budget with
    | zero =>
      intro items none_
      rw [List.length_eq_zero_iff.mp (Nat.le_zero.mp none_)]
      exact nil
    | succ budget ih =>
      intro items enough
      by_cases empty : items = []
      · rw [empty]
        exact nil
      · have some_ := List.length_pos_iff.mpr empty
        refine step items empty (ih _ ?_)
        rw [List.length_drop]
        omega
  exact bounded items.length items (Nat.le_refl _)

theorem getElem?_chunks (positive : 0 < size) (items : List α) (index : Nat) :
    (chunks size items)[index]? =
      if index * size < items.length then
        some ((items.drop (index * size)).take size)
      else none := by
  induction items using induction_by_chunks positive generalizing index with
  | nil => rfl
  | step items nonempty ih =>
    rw [chunks_cons positive nonempty]
    cases index with
    | zero =>
      rw [Nat.zero_mul, if_pos (List.length_pos_iff.mpr nonempty)]
      rfl
    | succ index =>
      have next : (index + 1) * size = size + index * size := by
        rw [Nat.succ_mul, Nat.add_comm]
      have within : index * size < (items.drop size).length ↔
          (index + 1) * size < items.length := by
        rw [List.length_drop, next]
        omega
      rw [List.getElem?_cons_succ, ih, List.drop_drop, ← next]
      by_cases there : index * size < (items.drop size).length
      · rw [if_pos there, if_pos (within.mp there)]
      · rw [if_neg there, if_neg (there ∘ within.mpr)]

theorem lt_divCeil_iff {part : Nat} (positive : 0 < part)
    (length index : Nat) : index < divCeil length part ↔
      index * part < length := by
  have split := Nat.div_add_mod length part
  have small := Nat.mod_lt length positive
  rw [Nat.mul_comm] at split
  unfold divCeil
  constructor
  · intro below
    by_cases rest : 0 < length % part
    · rw [if_pos rest] at below
      have most := Nat.mul_le_mul_right part (Nat.le_of_lt_succ below)
      omega
    · rw [if_neg rest] at below
      have most := Nat.mul_le_mul_right part (Nat.succ_le_of_lt below)
      rw [Nat.succ_mul] at most
      omega
  · intro within
    have full : index ≤ length / part :=
      (Nat.le_div_iff_mul_le positive).mpr (Nat.le_of_lt within)
    by_cases rest : 0 < length % part
    · rw [if_pos rest]
      omega
    · rw [if_neg rest]
      refine Nat.lt_of_le_of_ne full fun same => ?_
      rw [← same] at split
      omega

theorem length_chunks (positive : 0 < size) (items : List α) :
    (chunks size items).length = divCeil items.length size := by
  have below (index : Nat) : index < (chunks size items).length ↔
      index < divCeil items.length size := by
    have found := getElem?_chunks positive items index
    rw [lt_divCeil_iff positive, ← Nat.not_le, ← List.getElem?_eq_none_iff,
      found]
    by_cases there : index * size < items.length
    · rw [if_pos there]
      exact ⟨fun _ => there, fun _ => Option.some_ne_none _⟩
    · rw [if_neg there]
      exact ⟨fun some_ => absurd rfl some_, fun here => absurd here there⟩
  exact Nat.le_antisymm
    (Nat.le_of_not_lt fun more => Nat.lt_irrefl _ ((below _).mp more))
    (Nat.le_of_not_lt fun more => Nat.lt_irrefl _ ((below _).mpr more))

theorem chunks_eq_range (positive : 0 < size) (items : List α) :
    chunks size items = (List.range (divCeil items.length size)).map
      fun index => (items.drop (index * size)).take size := by
  apply List.ext_getElem?
  intro index
  rw [getElem?_chunks positive, List.getElem?_map]
  by_cases there : index * size < items.length
  · have inside := (lt_divCeil_iff positive _ _).mpr there
    rw [if_pos there, List.getElem?_range inside]
    rfl
  · have outside : ¬ index < divCeil items.length size :=
      there ∘ (lt_divCeil_iff positive _ _).mp
    have none_ : (List.range (divCeil items.length size))[index]? = none :=
      List.getElem?_eq_none_iff.mpr (by
        rw [List.length_range]
        exact Nat.le_of_not_lt outside)
    rw [if_neg there, none_]
    rfl

theorem flatten_chunks (positive : 0 < size) (items : List α) :
    (chunks size items).flatten = items := by
  induction items using induction_by_chunks positive with
  | nil => rfl
  | step items nonempty ih =>
    rw [chunks_cons positive nonempty, List.flatten_cons, ih,
      List.take_append_drop]

end Chunks

end Rust
