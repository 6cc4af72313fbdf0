import Sharerr.Process.Endings

/-!
# Programs run alone

A responder answers every call of a program, so a program run alone has one
outcome: its value, the world it leaves, and how many calls it made.  The
responder sees the number of calls made before, which is where readings of a
clock and failures at chosen places come from.

A responder whose answers `perform` admits describes runs of a pool with one
thread (`Run.of_alone`).
-/

namespace Process

variable {Thread World Call : Type} {Answer : Call → Type}
variable {α β σ : Type}

/-- The answer to a call and the world after it. -/
abbrev Responder (World Call : Type) (Answer : Call → Type) : Type :=
  Nat → World → (request : Call) → Answer request × World

/-- How a program run alone ends. -/
structure Finish (World α : Type) where
  value : α
  world : World
  calls : Nat

/-- `program` run alone, after `calls` calls. -/
def Prog.alone (respond : Responder World Call Answer) :
    Prog Call Answer α → Nat → World → Finish World α
  | .done value, calls, world => ⟨value, world, calls⟩
  | .call request next, calls, world =>
    (next (respond calls world request).1).alone respond (calls + 1)
      (respond calls world request).2

/-- The calls `program` makes when `thread` runs it alone, with their
answers. -/
def Prog.told (respond : Responder World Call Answer) (thread : Thread) :
    Prog Call Answer α → Nat → World → List (Event Thread Call Answer)
  | .done _, _, _ => []
  | .call request next, calls, world =>
    ⟨thread, request, (respond calls world request).1⟩ ::
      (next (respond calls world request).1).told respond thread (calls + 1)
        (respond calls world request).2

/-- The value of a program whose calls are answered without a world. -/
def Prog.answeredBy (answers : ∀ request, Answer request) :
    Prog Call Answer α → α
  | .done value => value
  | .call request next => (next (answers request)).answeredBy answers

namespace Prog

variable {respond : Responder World Call Answer} {calls : Nat} {world : World}

@[simp] theorem alone_done (value : α) :
    (Prog.done value : Prog Call Answer α).alone respond calls world =
      ⟨value, world, calls⟩ :=
  rfl

theorem alone_call (request : Call)
    (next : Answer request → Prog Call Answer α) :
    (Prog.call request next).alone respond calls world =
      (next (respond calls world request).1).alone respond (calls + 1)
        (respond calls world request).2 :=
  rfl

theorem alone_bind (program : Prog Call Answer α)
    (rest : α → Prog Call Answer β) :
    (program.bind rest).alone respond calls world =
      (rest (program.alone respond calls world).value).alone respond
        (program.alone respond calls world).calls
        (program.alone respond calls world).world := by
  induction program generalizing calls world with
  | done value => rfl
  | call request next ih => exact ih _

theorem answeredBy_bind {answers : ∀ request, Answer request}
    (program : Prog Call Answer α) (rest : α → Prog Call Answer β) :
    (program.bind rest).answeredBy answers =
      (rest (program.answeredBy answers)).answeredBy answers := by
  induction program with
  | done value => rfl
  | call request next ih => exact ih _

/-- A program begun later is one begun at once under a responder that is that
much ahead. -/
theorem alone_later (program : Prog Call Answer α) (earlier : Nat) :
    program.alone respond (earlier + calls) world =
      let finish :=
        program.alone (fun count => respond (earlier + count)) calls world
      ⟨finish.value, finish.world, earlier + finish.calls⟩ := by
  induction program generalizing calls world with
  | done value => rfl
  | call request next ih =>
    rw [alone_call, alone_call, Nat.add_assoc]
    exact ih _

theorem told_bind (thread : Thread) (program : Prog Call Answer α)
    (rest : α → Prog Call Answer β) :
    (program.bind rest).told respond thread calls world =
      program.told respond thread calls world ++
        (rest (program.alone respond calls world).value).told respond thread
          (program.alone respond calls world).calls
          (program.alone respond calls world).world := by
  induction program generalizing calls world with
  | done value => rfl
  | call request next ih =>
    simp only [bind_call, told, alone_call, ih, List.cons_append]

theorem alone_fold_append (step : σ → α → Prog Call Answer σ) (state : σ)
    (first second : List α) :
    (Prog.fold step state (first ++ second)).alone respond calls world =
      (Prog.fold step
          ((Prog.fold step state first).alone respond calls world).value
          second).alone respond
        ((Prog.fold step state first).alone respond calls world).calls
        ((Prog.fold step state first).alone respond calls world).world := by
  induction first generalizing state calls world with
  | nil => rfl
  | cons item items ih =>
    simp only [List.cons_append, fold_cons, alone_bind, ih]

/-- What the allowed calls keep, a program that makes no others keeps. -/
theorem Only.alone {allowed : Call → Prop} {program : Prog Call Answer α}
    (only : program.Only allowed) (property : World → Prop)
    (kept : ∀ calls world request, allowed request → property world →
      property (respond calls world request).2)
    (holds : property world) :
    property (program.alone respond calls world).world := by
  induction program generalizing calls world with
  | done value => exact holds
  | call request next ih =>
    exact ih _ (only.2 _) (kept calls world request only.1 holds)

theorem alone_fold {step : σ → α → Prog Call Answer σ}
    (invariant : List α → Finish World σ → Prop)
    (body : ∀ item items state world calls,
      invariant (item :: items) ⟨state, world, calls⟩ →
        invariant items ((step state item).alone respond calls world)) :
    ∀ items state world calls, invariant items ⟨state, world, calls⟩ →
      invariant [] ((Prog.fold step state items).alone respond calls world)
  | [], _, _, _, holds => holds
  | item :: items, state, world, calls, holds => by
      rw [fold_cons, alone_bind]
      exact alone_fold invariant body items _ _ _
        (body item items state world calls holds)

end Prog

variable {perform : Perform Thread World Call Answer} {thread : Thread}

theorem Ends.answeredBy {world after : World} {program : Prog Call Answer α}
    {events : List (Event Thread Call Answer)} {value : α}
    {answers : ∀ request, Answer request}
    (ends : Ends perform thread world program events after value)
    (reads : ∀ event ∈ events, ∀ after,
      perform thread world event.request event.answer = some after →
        after = world ∧ event.answer = answers event.request) :
    after = world ∧ value = program.answeredBy answers := by
  induction ends with
  | done => exact ⟨rfl, rfl⟩
  | call performed _ ih =>
    obtain ⟨rfl, told⟩ := reads _ List.mem_cons_self _ performed
    obtain ⟨kept, ended⟩ := ih fun event member =>
      reads event (List.mem_cons_of_mem _ member)
    refine ⟨kept, ended.trans ?_⟩
    rw [Prog.answeredBy, ← told]

theorem Ends.of_alone {respond : Responder World Call Answer}
    (admitted : ∀ calls world request, perform thread world request
      (respond calls world request).1 = some (respond calls world request).2)
    (program : Prog Call Answer α) (calls : Nat) (world : World) :
    Ends perform thread world program
      (program.told respond thread calls world)
      (program.alone respond calls world).world
      (program.alone respond calls world).value := by
  induction program generalizing calls world with
  | done value => exact .done
  | call request next ih =>
    exact .call (admitted calls world request) (ih _ _ _)

theorem Run.of_alone [DecidableEq Thread]
    {respond : Responder World Call Answer}
    (admitted : ∀ calls world request, perform thread world request
      (respond calls world request).1 = some (respond calls world request).2)
    {start pool : Pool Thread World Call Answer α}
    {trace : List (Event Thread Call Answer)}
    (run : Run perform .always start trace pool) (calls : Nat) :
    Run perform .always start
      (trace ++ (pool.threads thread).told respond thread calls pool.world)
      (pool.put thread
        ((pool.threads thread).alone respond calls pool.world).world
        (.done
          ((pool.threads thread).alone respond calls pool.world).value)) := by
  generalize current : pool.threads thread = program
  induction program generalizing pool trace calls with
  | done value =>
    have same : pool.put thread pool.world (.done value) = pool := by
      rw [← current]
      simp [Pool.put]
    simpa [same, Prog.told] using run
  | call request next ih =>
    have further := run.step current trivial
      (admitted calls pool.world request)
    have rest := ih _ further (calls + 1) (Pool.put_same ..)
    have twice : ∀ (world middle : World)
        (last before : Prog Call Answer α),
        (pool.put thread middle before).put thread world last =
          pool.put thread world last := by
      intro world middle last before
      simp [Pool.put]
    rw [twice, List.append_assoc] at rest
    exact rest

end Process
