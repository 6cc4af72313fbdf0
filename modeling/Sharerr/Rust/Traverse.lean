import Mathlib.Data.List.Basic
import Sharerr.Rust.Basic

/-!
# Fallible steps over a list

`try_collect` over steps kept in order: the first step that fails ends it, and
otherwise every input is paired with what its step gave.
-/

namespace Rust

variable {ε α β : Type}

variable {outputs : List β} {step : α → Except ε β}

theorem mapM_cons_eq_ok {head : α} {tail : List α}
    (ended : (head :: tail).mapM step = .ok outputs) :
    ∃ first rest, step head = .ok first ∧ tail.mapM step = .ok rest ∧
      outputs = first :: rest := by
  rw [List.mapM_cons] at ended
  obtain ⟨first, firstOk, ended⟩ := bind_eq_ok ended
  obtain ⟨rest, restOk, ended⟩ := bind_eq_ok ended
  cases ended
  exact ⟨first, rest, firstOk, restOk, rfl⟩

theorem mapM_map_eq_ok {write : α → β} {read : β → Except ε α}
    (each : ∀ item, read (write item) = .ok item) (items : List α) :
    (items.map write).mapM read = .ok items := by
  induction items with
  | nil => rfl
  | cons item items ih =>
    rw [List.map_cons, List.mapM_cons, each, ih]
    rfl

theorem mem_zip_mapM_iff {inputs : List α}
    (ended : inputs.mapM step = .ok outputs) {input : α} {output : β} :
    (input, output) ∈ inputs.zip outputs ↔
      input ∈ inputs ∧ step input = .ok output := by
  induction inputs generalizing outputs with
  | nil => simp
  | cons head tail ih =>
    obtain ⟨first, rest, firstOk, restOk, rfl⟩ := mapM_cons_eq_ok ended
    rw [List.zip_cons_cons, List.mem_cons, ih restOk]
    constructor
    · intro found
      rcases found with here | ⟨later, gave⟩
      · cases here
        exact ⟨List.mem_cons_self, firstOk⟩
      · exact ⟨List.mem_cons_of_mem _ later, gave⟩
    · intro found
      obtain ⟨member, gave⟩ := found
      rcases List.mem_cons.mp member with rfl | later
      · rw [firstOk] at gave
        cases gave
        exact Or.inl rfl
      · exact Or.inr ⟨later, gave⟩

theorem ok_of_mem_of_mapM {inputs : List α}
    (ended : inputs.mapM step = .ok outputs) {input : α}
    (member : input ∈ inputs) : ∃ output, step input = .ok output := by
  induction inputs generalizing outputs with
  | nil => cases member
  | cons head tail ih =>
    obtain ⟨first, rest, firstOk, restOk, _⟩ := mapM_cons_eq_ok ended
    rcases List.mem_cons.mp member with rfl | later
    · exact ⟨first, firstOk⟩
    · exact ih restOk later

/-- A list collected through `?` holds only what its elements were mapped
to. -/
theorem mem_of_mapM_eq_ok {inputs : List α}
    (ended : inputs.mapM step = .ok outputs) {output : β}
    (member : output ∈ outputs) :
    ∃ input ∈ inputs, step input = .ok output := by
  induction inputs generalizing outputs with
  | nil =>
    cases ended
    cases member
  | cons head tail ih =>
    obtain ⟨first, rest, firstOk, restOk, rfl⟩ := mapM_cons_eq_ok ended
    rcases List.mem_cons.mp member with rfl | later
    · exact ⟨head, List.mem_cons_self, firstOk⟩
    · obtain ⟨source, among, made⟩ := ih restOk later
      exact ⟨source, List.mem_cons_of_mem _ among, made⟩

/-- What every step that ends well keeps, a loop that ends well keeps. -/
theorem foldlM_keeps {State : Type} {next : State → α → Except ε State}
    (holds : State → Prop) {inputs : List α} {state last : State}
    (keeps : ∀ state input after, holds state →
      next state input = .ok after → holds after)
    (start : holds state) (ended : inputs.foldlM next state = .ok last) :
    holds last := by
  induction inputs generalizing state with
  | nil =>
    cases ended
    exact start
  | cons input inputs ih =>
    rw [List.foldlM_cons] at ended
    obtain ⟨middle, first, ended⟩ := bind_eq_ok ended
    exact ih (keeps state input middle start first) ended

end Rust
