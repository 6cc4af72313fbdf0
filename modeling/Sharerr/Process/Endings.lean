import Sharerr.Process.Pool

/-!
# How a program run on its own can end

`Ends perform thread world program events after value` says that `program`,
run by `thread` alone from `world`, may make the calls `events` and finish with
`value` in the world `after`.  Any answer `perform` admits may come, so what
holds of every ending holds whatever call fails.
-/

namespace Process

variable {Thread World Call : Type} {Answer : Call → Type}
variable {α β ε σ : Type}

/-- The ways a program run on its own can end. -/
inductive Ends (perform : Perform Thread World Call Answer) (thread : Thread) :
    World → Prog Call Answer α → List (Event Thread Call Answer) → World →
      α → Prop where
  | done {world : World} {value : α} :
      Ends perform thread world (.done value) [] world value
  | call {world middle after : World} {request : Call}
      {next : Answer request → Prog Call Answer α} {answer : Answer request}
      {events : List (Event Thread Call Answer)} {value : α}
      (performed : perform thread world request answer = some middle)
      (rest : Ends perform thread middle (next answer) events after value) :
      Ends perform thread world (.call request next)
        (⟨thread, request, answer⟩ :: events) after value

namespace Ends

variable {perform : Perform Thread World Call Answer} {thread : Thread}
variable {world after : World} {events : List (Event Thread Call Answer)}

variable {value : α} {program : Prog Call Answer α}
  {rest : α → Prog Call Answer (Except ε β)}

theorem done_iff {ended : α} :
    Ends perform thread world (.done value) events after ended ↔
      events = [] ∧ after = world ∧ ended = value := by
  constructor
  · intro ends
    cases ends
    exact ⟨rfl, rfl, rfl⟩
  · rintro ⟨rfl, rfl, rfl⟩
    exact .done

theorem call_iff {request : Call} {next : Answer request → Prog Call Answer α} :
    Ends perform thread world (.call request next) events after value ↔
      ∃ answer middle later, events = ⟨thread, request, answer⟩ :: later ∧
        perform thread world request answer = some middle ∧
          Ends perform thread middle (next answer) later after value := by
  constructor
  · intro ends
    cases ends with
    | call performed rest => exact ⟨_, _, _, rfl, performed, rest⟩
  · rintro ⟨answer, middle, later, rfl, performed, rest⟩
    exact .call performed rest

theorem bind_iff {rest : α → Prog Call Answer β} {value : β} :
    Ends perform thread world (program.bind rest) events after value ↔
      ∃ first second middle passed, events = first ++ second ∧
        Ends perform thread world program first middle passed ∧
          Ends perform thread middle (rest passed) second after value := by
  induction program generalizing world events with
  | done passed =>
    constructor
    · intro ends
      exact ⟨[], events, world, passed, rfl, .done, ends⟩
    · rintro ⟨first, second, middle, ended, rfl, ends, later⟩
      obtain ⟨rfl, rfl, rfl⟩ := done_iff.mp ends
      exact later
  | call request next ih =>
    constructor
    · intro ends
      obtain ⟨answer, middle, later, rfl, performed, ended⟩ :=
        call_iff.mp ends
      obtain ⟨first, second, between, passed, rfl, one, other⟩ :=
        (ih answer).mp ended
      exact ⟨_ :: first, second, between, passed, rfl,
        .call performed one, other⟩
    · rintro ⟨first, second, between, passed, rfl, ends, other⟩
      obtain ⟨answer, middle, later, rfl, performed, one⟩ :=
        call_iff.mp ends
      exact .call performed
        ((ih answer).mpr ⟨later, second, between, passed, rfl, one, other⟩)

theorem fold_append_iff {ι : Type} {step : σ → ι → Prog Call Answer σ}
    {front back : List ι} {start ended : σ} :
    Ends perform thread world (Prog.fold step start (front ++ back)) events
        after ended ↔
      ∃ first second middle passed, events = first ++ second ∧
        Ends perform thread world (Prog.fold step start front) first middle
            passed ∧
          Ends perform thread middle (Prog.fold step passed back) second
            after ended := by
  induction front generalizing start world events with
  | nil =>
    constructor
    · intro ends
      exact ⟨[], events, world, start, rfl, .done, ends⟩
    · rintro ⟨first, second, middle, passed, rfl, ends, later⟩
      obtain ⟨rfl, rfl, rfl⟩ := done_iff.mp ends
      exact later
  | cons item front ih =>
    rw [List.cons_append, Prog.fold_cons, Prog.fold_cons, bind_iff]
    constructor
    · rintro ⟨one, rest, middle, next, rfl, ends, others⟩
      obtain ⟨first, second, between, passed, rfl, begun, later⟩ :=
        ih.mp others
      exact ⟨one ++ first, second, between, passed,
        (List.append_assoc ..).symm,
        bind_iff.mpr ⟨one, first, middle, next, rfl, ends, begun⟩, later⟩
    · rintro ⟨first, second, between, passed, rfl, begun, later⟩
      obtain ⟨one, rest, middle, next, rfl, ends, others⟩ := bind_iff.mp begun
      exact ⟨one, rest ++ second, middle, next, List.append_assoc .., ends,
        ih.mpr ⟨rest, second, between, passed, rfl, others, later⟩⟩

theorem attempt_iff {program : Prog Call Answer (Except ε α)}
    {value : Except ε β} :
    Ends perform thread world (program.attempt rest) events after value ↔
      (∃ reason, value = .error reason ∧
        Ends perform thread world program events after (.error reason)) ∨
      ∃ first second middle passed, events = first ++ second ∧
        Ends perform thread world program first middle (.ok passed) ∧
          Ends perform thread middle (rest passed) second after value := by
  rw [Prog.attempt, bind_iff]
  constructor
  · rintro ⟨first, second, middle, passed, rfl, ends, later⟩
    cases passed with
    | error reason =>
      obtain ⟨rfl, rfl, rfl⟩ := done_iff.mp later
      rw [List.append_nil]
      exact .inl ⟨reason, rfl, ends⟩
    | ok passed =>
      exact .inr ⟨first, second, middle, passed, rfl, ends, later⟩
  · rintro (⟨reason, rfl, ends⟩ | ⟨first, second, middle, passed, rfl, ends,
      later⟩)
    · exact ⟨events, [], after, .error reason, (List.append_nil _).symm,
        ends, .done⟩
    · exact ⟨first, second, middle, .ok passed, rfl, ends, later⟩

theorem proceed_ok {value : Except ε α} {result : β}
    (ends : Ends perform thread world (Prog.proceed value rest) events after
      (.ok result)) :
    ∃ passed, value = .ok passed ∧
      Ends perform thread world (rest passed) events after (.ok result) := by
  cases value with
  | error reason => cases (done_iff.mp ends).2.2
  | ok passed => exact ⟨passed, rfl, ends⟩

theorem attempt_ok {program : Prog Call Answer (Except ε α)} {result : β}
    (ends : Ends perform thread world (program.attempt rest) events after
      (.ok result)) :
    ∃ first second middle passed, events = first ++ second ∧
      Ends perform thread world program first middle (.ok passed) ∧
        Ends perform thread middle (rest passed) second after
          (.ok result) := by
  rcases attempt_iff.mp ends with ⟨reason, failed, -⟩ | succeeded
  · cases failed
  · exact succeeded

/-- The calls of a program are the ones it is allowed. -/
theorem requests {allowed : Call → Prop}
    (ends : Ends perform thread world program events after value)
    (only : program.Only allowed) :
    ∀ event ∈ events, allowed event.request := by
  induction ends with
  | done => exact fun _ member => nomatch member
  | call _ _ ih =>
    intro event member
    rcases List.mem_cons.mp member with rfl | later
    · exact only.1
    · exact ih (only.2 _) event later

/-- What the allowed calls keep, a program that makes no others keeps. -/
theorem keeps {allowed : Call → Prop}
    (ends : Ends perform thread world program events after value)
    (only : program.Only allowed) (property : World → Prop)
    (kept : ∀ world request answer after, allowed request →
      perform thread world request answer = some after →
        property world → property after) (holds : property world) :
    property after := by
  induction ends with
  | done => exact holds
  | call performed _ ih =>
    exact ih (only.2 _) (kept _ _ _ _ only.1 performed holds)

end Ends

end Process
