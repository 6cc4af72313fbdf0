import Mathlib.Logic.Function.Basic

/-!
# Programs over atomic calls

A program is a tree of atomic calls: it either has finished with a value or is
waiting for the answer to one request.  Nothing here says what a call does;
that is the business of whoever performs it, so one program can be run alone,
interleaved with others, or stopped half way.
-/

namespace Process

/-- A program whose requests are `Call`s and whose answers to a request have
the type `Answer` gives it. -/
inductive Prog (Call : Type) (Answer : Call → Type) (α : Type) : Type where
  | done (value : α)
  | call (request : Call) (next : Answer request → Prog Call Answer α)

namespace Prog

variable {Call : Type} {Answer : Call → Type} {α β γ ε σ : Type}

/-- Sequential composition. -/
def bind : Prog Call Answer α → (α → Prog Call Answer β) →
    Prog Call Answer β
  | .done value, rest => rest value
  | .call request next, rest =>
    .call request fun answer => (next answer).bind rest

instance : Monad (Prog Call Answer) where
  pure := .done
  bind := bind

/-- The program that makes one request and returns its answer. -/
def request (wanted : Call) : Prog Call Answer (Answer wanted) :=
  .call wanted .done

/-- The `?` operator: an error ends the whole computation, a value is handed
on. -/
def proceed : Except ε α → (α → Prog Call Answer (Except ε β)) →
    Prog Call Answer (Except ε β)
  | .ok value, rest => rest value
  | .error reason, _ => .done (.error reason)

/-- The `?` operator on the value a program ends with. -/
def attempt (program : Prog Call Answer (Except ε α))
    (rest : α → Prog Call Answer (Except ε β)) :
    Prog Call Answer (Except ε β) :=
  program.bind fun value => proceed value rest

/-- A program that makes its requests as requests of a larger system. -/
def lift {Outer : Type} {OuterAnswer : Outer → Type} (embed : Call → Outer)
    (read : ∀ wanted, OuterAnswer (embed wanted) → Answer wanted) :
    Prog Call Answer α → Prog Outer OuterAnswer α
  | .done value => .done value
  | .call wanted next => .call (embed wanted) fun answer =>
    (next (read wanted answer)).lift embed read

/-- A loop over a list with an accumulator. -/
def fold (step : σ → α → Prog Call Answer σ) : σ → List α →
    Prog Call Answer σ
  | state, [] => .done state
  | state, item :: items => (step state item).bind fun next =>
    fold step next items

/-- The program abandoned after its first `budget` calls. -/
def cut : Nat → Prog Call Answer α → Prog Call Answer (Option α)
  | _, .done value => .done (some value)
  | 0, .call _ _ => .done none
  | budget + 1, .call wanted next =>
    .call wanted fun answer => (next answer).cut budget

@[simp] theorem bind_done (value : α) (rest : α → Prog Call Answer β) :
    (Prog.done value).bind rest = rest value :=
  rfl

@[simp] theorem bind_call (wanted : Call)
    (next : Answer wanted → Prog Call Answer α)
    (rest : α → Prog Call Answer β) :
    (Prog.call wanted next).bind rest =
      .call wanted fun answer => (next answer).bind rest :=
  rfl

theorem bind_assoc (program : Prog Call Answer α)
    (middle : α → Prog Call Answer β) (rest : β → Prog Call Answer γ) :
    (program.bind middle).bind rest =
      program.bind fun value => (middle value).bind rest := by
  induction program with
  | done value => rfl
  | call wanted next ih => exact congrArg (Prog.call wanted) (funext ih)

@[simp] theorem pure_eq_done (value : α) :
    (pure value : Prog Call Answer α) = .done value :=
  rfl

@[simp] theorem bind_eq_bind (program : Prog Call Answer α)
    (rest : α → Prog Call Answer β) : (program >>= rest) = program.bind rest :=
  rfl

@[simp] theorem request_bind (wanted : Call)
    (rest : Answer wanted → Prog Call Answer β) :
    (request wanted).bind rest = .call wanted rest :=
  rfl

@[simp] theorem fold_nil (step : σ → α → Prog Call Answer σ) (state : σ) :
    fold step state [] = .done state :=
  rfl

@[simp] theorem fold_cons (step : σ → α → Prog Call Answer σ) (state : σ)
    (item : α) (items : List α) :
    fold step state (item :: items) =
      (step state item).bind fun next => fold step next items :=
  rfl

section Lift

variable {Outer : Type} {OuterAnswer : Outer → Type} (embed : Call → Outer)
  (read : ∀ wanted, OuterAnswer (embed wanted) → Answer wanted)

theorem lift_bind (program : Prog Call Answer α)
    (rest : α → Prog Call Answer β) :
    (program.bind rest).lift embed read =
      (program.lift embed read).bind fun value =>
        (rest value).lift embed read := by
  induction program with
  | done value => rfl
  | call wanted next ih =>
    simp only [bind_call, lift, ih]

theorem lift_proceed (value : Except ε α)
    (rest : α → Prog Call Answer (Except ε β)) :
    (proceed value rest).lift embed read =
      proceed value fun value => (rest value).lift embed read := by
  cases value <;> rfl

theorem lift_attempt (program : Prog Call Answer (Except ε α))
    (rest : α → Prog Call Answer (Except ε β)) :
    (program.attempt rest).lift embed read =
      (program.lift embed read).attempt fun value =>
        (rest value).lift embed read := by
  simp only [attempt, lift_bind, lift_proceed]

end Lift

/-- The value of a finished program. -/
def result? : Prog Call Answer α → Option α
  | .done value => some value
  | .call _ _ => none

theorem eq_done_of_result? {program : Prog Call Answer α} {value : α}
    (finished : program.result? = some value) : program = .done value := by
  cases program with
  | done other =>
    cases finished
    rfl
  | call wanted next => cases finished

/-- Every call the program can come to is an allowed one. -/
def Only (allowed : Call → Prop) : Prog Call Answer α → Prop
  | .done _ => True
  | .call wanted next => allowed wanted ∧ ∀ answer, (next answer).Only allowed

variable {allowed : Call → Prop} {program : Prog Call Answer α}
  {rest : α → Prog Call Answer (Except ε β)}

theorem Only.mono {more : Call → Prop} (only : program.Only allowed)
    (wider : ∀ wanted, allowed wanted → more wanted) : program.Only more := by
  induction program with
  | done value => trivial
  | call wanted next ih =>
    exact ⟨wider wanted only.1, fun answer => ih answer (only.2 answer)⟩

theorem Only.bind {rest : α → Prog Call Answer β} (first : program.Only allowed)
    (second : ∀ value, (rest value).Only allowed) :
    (program.bind rest).Only allowed := by
  induction program with
  | done value => exact second value
  | call wanted next ih =>
    exact ⟨first.1, fun answer => ih answer (first.2 answer)⟩

theorem Only.proceed (value : Except ε α)
    (second : ∀ value, (rest value).Only allowed) :
    (Prog.proceed value rest).Only allowed := by
  cases value with
  | error reason => trivial
  | ok value => exact second value

theorem Only.attempt {allowed : Call → Prop}
    {program : Prog Call Answer (Except ε α)}
    {rest : α → Prog Call Answer (Except ε β)} (first : program.Only allowed)
    (second : ∀ value, (rest value).Only allowed) :
    (program.attempt rest).Only allowed :=
  first.bind fun value => Only.proceed value second

theorem Only.lift {Outer : Type} {OuterAnswer : Outer → Type}
    {inner : Call → Prop} {allowed : Outer → Prop} {embed : Call → Outer}
    {read : ∀ wanted, OuterAnswer (embed wanted) → Answer wanted}
    (only : program.Only inner)
    (wider : ∀ wanted, inner wanted → allowed (embed wanted)) :
    (program.lift embed read).Only allowed := by
  induction program with
  | done value => trivial
  | call wanted next ih =>
    exact ⟨wider wanted only.1, fun answer => ih _ (only.2 _)⟩

theorem Only.fold {allowed : Call → Prop}
    {step : σ → α → Prog Call Answer σ} {items : List α}
    (body : ∀ state, ∀ item ∈ items, (step state item).Only allowed)
    (state : σ) : (Prog.fold step state items).Only allowed := by
  induction items generalizing state with
  | nil => trivial
  | cons item items ih =>
    apply (body state item List.mem_cons_self).bind
    exact ih fun state other member =>
      body state other (List.mem_cons_of_mem _ member)

theorem Only.and {one other : Call → Prop} (first : program.Only one)
    (second : program.Only other) :
    program.Only fun wanted => one wanted ∧ other wanted := by
  induction program with
  | done value => trivial
  | call wanted next ih =>
    exact ⟨⟨first.1, second.1⟩, fun answer =>
      ih answer (first.2 answer) (second.2 answer)⟩

/-- A program makes only calls. -/
theorem Only.any (program : Prog Call Answer α) :
    program.Only fun _ => True := by
  induction program with
  | done value => trivial
  | call wanted next ih => exact ⟨trivial, ih⟩

/-- Every value the program can finish with is a good one. -/
def Returns (good : α → Prop) : Prog Call Answer α → Prop
  | .done value => good value
  | .call _ next => ∀ answer, (next answer).Returns good

theorem Returns.mono {good better : α → Prop} (returns : program.Returns good)
    (implies : ∀ value, good value → better value) :
    program.Returns better := by
  induction program with
  | done value => exact implies value returns
  | call wanted next ih => exact fun answer => ih answer (returns answer)

theorem Returns.bind {middle : α → Prop} {good : β → Prop}
    {rest : α → Prog Call Answer β} (first : program.Returns middle)
    (second : ∀ value, middle value → (rest value).Returns good) :
    (program.bind rest).Returns good := by
  induction program with
  | done value => exact second value first
  | call wanted next ih => exact fun answer => ih answer (first answer)

theorem Returns.any (program : Prog Call Answer α) :
    program.Returns fun _ => True := by
  induction program with
  | done value => trivial
  | call wanted next ih => exact ih

section Ensures

variable {allowed : Call → Prop} {honest : ∀ request, Answer request → Prop}
variable {middle : α → Prop} {good : β → Prop}

/-- As long as every answer is an honest one, the program makes only allowed
calls and finishes with a good value. -/
def Ensures (allowed : Call → Prop)
    (honest : ∀ request, Answer request → Prop) (good : α → Prop) :
    Prog Call Answer α → Prop
  | .done value => good value
  | .call request next => allowed request ∧
      ∀ answer, honest request answer →
        (next answer).Ensures allowed honest good

theorem Ensures.bind {program : Prog Call Answer α}
    {rest : α → Prog Call Answer β}
    (first : program.Ensures allowed honest middle)
    (second : ∀ value, middle value →
      (rest value).Ensures allowed honest good) :
    (program.bind rest).Ensures allowed honest good := by
  induction program with
  | done value => exact second value first
  | call request next ih =>
    exact ⟨first.1, fun answer true_ => ih answer (first.2 answer true_)⟩

theorem Ensures.proceed {good : Except ε β → Prop} {value : Except ε α}
    {rest : α → Prog Call Answer (Except ε β)}
    (failed : ∀ reason, good (.error reason))
    (went : ∀ result, value = .ok result →
      (rest result).Ensures allowed honest good) :
    (Prog.proceed value rest).Ensures allowed honest good := by
  cases value with
  | error reason => exact failed reason
  | ok result => exact went result rfl

variable {program : Prog Call Answer α}

theorem Ensures.of_only (only : program.Only allowed) :
    program.Ensures allowed honest fun _ => True := by
  induction program with
  | done value => trivial
  | call request next ih =>
    exact ⟨only.1, fun answer _ => ih answer (only.2 answer)⟩

theorem Ensures.lift {Outer : Type} {OuterAnswer : Outer → Type}
    {widely : Outer → Prop} {truly : ∀ request, OuterAnswer request → Prop}
    {embed : Call → Outer}
    {read : ∀ request, OuterAnswer (embed request) → Answer request}
    (ensures : program.Ensures allowed honest middle)
    (wider : ∀ request, allowed request → widely (embed request))
    (truer : ∀ request answer, truly (embed request) answer →
      honest request (read request answer)) :
    (program.lift embed read).Ensures widely truly middle := by
  induction program with
  | done value => exact ensures
  | call request next ih =>
    exact ⟨wider request ensures.1, fun answer true_ =>
      ih _ (ensures.2 _ (truer request answer true_))⟩

end Ensures

end Prog

end Process
