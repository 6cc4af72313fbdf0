import Mathlib.Data.List.Induction
import Mathlib.Logic.Function.Basic
import Sharerr.Process.Program

/-!
# Interleaved runs of a pool of programs

A pool is a shared world and one program per thread.  A step lets one thread
make its next call; a run is any sequence of such steps, so a statement about
every run is a statement about every interleaving.  A thread that is never
scheduled again has stopped where it stands.

`perform` says what one call does.  It is given the answer the call gets and
returns the world after it, or `none` where that answer is impossible in that
world; failures and readings of a clock are answers like any other.
-/

namespace Process

variable {Thread World Call : Type} {Answer : Call → Type} {Result : Type}

/-- What a call does to the world, for each answer it may get. -/
abbrev Perform (Thread World Call : Type) (Answer : Call → Type) : Type :=
  Thread → World → (request : Call) → Answer request → Option World

/-- One call made by one thread, with its answer. -/
structure Event (Thread Call : Type) (Answer : Call → Type) where
  thread : Thread
  request : Call
  answer : Answer request

/-- A world together with the events that led to it. -/
structure Moment (Thread World Call : Type) (Answer : Call → Type) where
  world : World
  past : List (Event Thread Call Answer)

structure Pool (Thread World Call : Type) (Answer : Call → Type)
    (Result : Type) where
  world : World
  threads : Thread → Prog Call Answer Result

/-- A restriction on the steps of a run, which sees the moment before. -/
abbrev Condition (Thread World Call : Type) (Answer : Call → Type) : Type :=
  Moment Thread World Call Answer → Event Thread Call Answer → Prop

/-- The condition every step meets. -/
def Condition.always : Condition Thread World Call Answer :=
  fun _ _ => True

variable {α : Type} {entry : α} {past : List α}
  {check : Moment Thread World Call Answer → Event Thread Call Answer → Bool}
  {condition : Condition Thread World Call Answer}
  {events : List (Event Thread Call Answer)}
  {perform : Perform Thread World Call Answer}
  {start : Pool Thread World Call Answer Result}

variable {earlier later after before : List α} {marked : α → Bool}
  {final : Pool Thread World Call Answer Result}

theorem split_last {last : α}
    (whole : past ++ [last] = earlier ++ entry :: later) :
    past = earlier ∧ last = entry ∨
      ∃ rest, later = rest ++ [last] ∧ past = earlier ++ entry :: rest := by
  rcases List.eq_nil_or_concat later with rfl | ⟨rest, other, rfl⟩
  · obtain ⟨rfl, same⟩ := List.append_inj' whole rfl
    exact .inl ⟨rfl, List.singleton_inj.mp same⟩
  · right
    rw [List.concat_eq_append, ← List.cons_append,
      ← List.append_assoc] at whole
    obtain ⟨rfl, same⟩ := List.append_inj' whole rfl
    rw [List.singleton_inj.mp same, List.concat_eq_append]
    exact ⟨rest, rfl, rfl⟩

/-- Whether a check passes for some entry and the ones before it. -/
def somewhere {α : Type} (check : List α → α → Bool) :
    List α → List α → Bool
  | _, [] => false
  | past, entry :: entries =>
    check past entry || somewhere check (past ++ [entry]) entries

theorem exists_of_somewhere {check : List α → α → Bool} {entries : List α}
    (found : somewhere check past entries = true) :
    ∃ earlier entry later, past ++ entries = earlier ++ entry :: later ∧
      check earlier entry = true := by
  induction entries generalizing past with
  | nil => cases found
  | cons entry entries ih =>
    rcases Bool.or_eq_true_iff.mp found with here | later
    · exact ⟨past, entry, entries, rfl, here⟩
    · obtain ⟨earlier, other, rest, whole, passed⟩ := ih later
      exact ⟨earlier, other, rest, by simpa using whole, passed⟩

/-- The entries after the first one that is marked. -/
def since {α : Type} (marked : α → Bool) : List α → List α
  | [] => []
  | entry :: entries => if marked entry then entries else since marked entries

theorem since_append (begun : past.any marked = true) (entry : α) :
    since marked (past ++ [entry]) = since marked past ++ [entry] := by
  induction past with
  | nil => cases begun
  | cons first past ih =>
    rw [List.cons_append, since, since]
    by_cases here : marked first = true
    · rw [if_pos here, if_pos here]
    · rw [if_neg here, if_neg here]
      rw [List.any_cons, Bool.or_eq_true] at begun
      exact ih (begun.resolve_left here)

/-- The entries after the last one that is marked. -/
def afterLast {α : Type} (marked : α → Bool) (past : List α) : List α :=
  (past.reverse.takeWhile fun entry => !marked entry).reverse

theorem afterLast_suffix (marked : α → Bool) (past : List α) :
    afterLast marked past <:+ past := by
  rw [← List.reverse_prefix, afterLast, List.reverse_reverse]
  exact List.takeWhile_prefix _

theorem afterLast_concat (marked : α → Bool) (past : List α) (entry : α) :
    afterLast marked (past ++ [entry]) =
      if marked entry then [] else afterLast marked past ++ [entry] := by
  rw [afterLast, List.reverse_append, List.reverse_singleton,
    List.singleton_append]
  by_cases isMarked : marked entry = true
  · rw [if_pos isMarked, List.takeWhile_cons_of_neg (by simp [isMarked])]
    rfl
  · rw [if_neg isMarked, List.takeWhile_cons_of_pos (by simp [isMarked]),
      List.reverse_cons]
    rfl

theorem afterLast_suffix_of_split (isMarked : marked entry = true) :
    afterLast marked (before ++ entry :: after) <:+ after := by
  rw [← List.reverse_prefix, afterLast, List.reverse_reverse]
  have whole : (before ++ entry :: after).reverse =
      after.reverse ++ entry :: before.reverse := by
    simp
  rw [whole, List.takeWhile_append, List.takeWhile_cons_of_neg
    (by simp [isMarked]), List.append_nil]
  split
  · exact List.prefix_rfl
  · exact List.takeWhile_prefix _

/-- Where entries at the end include a marked one, and none is marked after a
certain entry, they include that entry too. -/
theorem suffix_of_marked {marked : α → Prop} {ending : List α}
    (split : past = before ++ entry :: after) (ends : ending <:+ past)
    (some_ : ∃ other ∈ ending, marked other)
    (none_ : ∀ other ∈ after, ¬ marked other) : entry :: after <:+ ending := by
  have whole : entry :: after <:+ past := ⟨before, split.symm⟩
  rcases List.suffix_or_suffix_of_suffix ends whole with shorter | longer
  · rcases List.suffix_cons_iff.mp shorter with same | within
    · exact same ▸ List.suffix_rfl
    · obtain ⟨other, member, isMarked⟩ := some_
      exact absurd isMarked (none_ other (within.subset member))
  · exact longer

variable [DecidableEq Thread]

/-- The pool after `thread` got an answer that left `world` and `program`. -/
def Pool.put (pool : Pool Thread World Call Answer Result) (thread : Thread)
    (world : World) (program : Prog Call Answer Result) :
    Pool Thread World Call Answer Result :=
  { world := world
    threads := Function.update pool.threads thread program }

@[simp] theorem Pool.put_world (pool : Pool Thread World Call Answer Result)
    (thread : Thread) (world : World) (program : Prog Call Answer Result) :
    (pool.put thread world program).world = world :=
  rfl

@[simp] theorem Pool.put_same (pool : Pool Thread World Call Answer Result)
    (thread : Thread) (world : World) (program : Prog Call Answer Result) :
    (pool.put thread world program).threads thread = program := by
  simp [Pool.put]

theorem Pool.put_other (pool : Pool Thread World Call Answer Result)
    {thread other : Thread} (different : other ≠ thread) (world : World)
    (program : Prog Call Answer Result) :
    (pool.put thread world program).threads other = pool.threads other := by
  simp [Pool.put, different]

/-- Every interleaving whose steps meet `condition`: the events of a run in
order, and the pool they lead to. -/
inductive Run (perform : Perform Thread World Call Answer)
    (condition : Condition Thread World Call Answer)
    (start : Pool Thread World Call Answer Result) :
    List (Event Thread Call Answer) →
      Pool Thread World Call Answer Result → Prop where
  | start : Run perform condition start [] start
  | step {trace : List (Event Thread Call Answer)}
      {pool : Pool Thread World Call Answer Result} {thread : Thread}
      {request : Call} {next : Answer request → Prog Call Answer Result}
      {answer : Answer request} {world : World}
      (run : Run perform condition start trace pool)
      (waiting : pool.threads thread = .call request next)
      (meets : condition ⟨pool.world, trace⟩ ⟨thread, request, answer⟩)
      (performed : perform thread pool.world request answer = some world) :
      Run perform condition start (trace ++ [⟨thread, request, answer⟩])
        (pool.put thread world (next answer))

namespace Run

variable {perform : Perform Thread World Call Answer}
  {condition : Condition Thread World Call Answer}
  {start : Pool Thread World Call Answer Result}

variable {trace : List (Event Thread Call Answer)}
  {pool : Pool Thread World Call Answer Result}

theorem last {event : Event Thread Call Answer}
    {after : Pool Thread World Call Answer Result}
    (run : Run perform condition start (trace ++ [event]) after) :
    ∃ pool next world, Run perform condition start trace pool ∧
      pool.threads event.thread = .call event.request next ∧
        condition ⟨pool.world, trace⟩ event ∧
          perform event.thread pool.world event.request event.answer =
              some world ∧
            after = pool.put event.thread world (next event.answer) := by
  generalize whole : trace ++ [event] = events at run
  cases run with
  | start => simp at whole
  | @step earlier pool thread request next answer world run waiting meets
      performed =>
      obtain ⟨rfl, same⟩ := List.append_inj' whole rfl
      cases List.singleton_inj.mp same
      exact ⟨pool, next, world, run, waiting, meets, performed, rfl⟩

theorem weaken {weaker : Condition Thread World Call Answer}
    (implies : ∀ moment event, condition moment event → weaker moment event)
    (run : Run perform condition start trace pool) :
    Run perform weaker start trace pool := by
  induction run with
  | start => exact .start
  | step _ waiting meets performed ih =>
    exact ih.step waiting (implies _ _ meets) performed

theorem meeting (other : Condition Thread World Call Answer)
    (run : Run perform condition start trace pool)
    (meets : ∀ earlier event later, trace = earlier ++ event :: later →
      ∀ world, other ⟨world, earlier⟩ event) :
    Run perform other start trace pool := by
  induction run with
  | start => exact .start
  | @step trace pool thread request next answer world _ waiting _ performed
      ih =>
      have before := ih fun earlier event later whole =>
        meets earlier event (later ++ [⟨thread, request, answer⟩])
          (by rw [whole, List.append_assoc, List.cons_append])
      exact before.step waiting (meets trace _ [] rfl pool.world) performed

theorem under {stronger : Condition Thread World Call Answer}
    (property : World → Prop)
    (kept : ∀ moment event after, condition moment event →
      perform event.thread moment.world event.request event.answer =
          some after →
        property moment.world → property after)
    (implies : ∀ moment event, condition moment event →
      property moment.world → stronger moment event)
    (holds : property start.world)
    (run : Run perform condition start trace pool) :
    Run perform stronger start trace pool ∧ property pool.world := by
  induction run with
  | start => exact ⟨.start, holds⟩
  | @step trace pool thread request next answer world _ waiting meets
      performed ih =>
      obtain ⟨run, here⟩ := ih
      exact ⟨run.step waiting (implies _ _ meets here) performed,
        kept ⟨pool.world, trace⟩ ⟨thread, request, answer⟩ world meets
          performed here⟩

variable {thread : Thread} {earlier later : List (Event Thread Call Answer)}
  {final : Pool Thread World Call Answer Result}

theorem untouched (run : Run perform condition start trace pool)
    (absent : ∀ event ∈ trace, event.thread ≠ thread) :
    pool.threads thread = start.threads thread := by
  induction run with
  | start => rfl
  | @step trace pool other request next answer world _ waiting _ performed
      ih =>
      have elsewhere : thread ≠ other := Ne.symm (absent
        ⟨other, request, answer⟩ (List.mem_append_right _ List.mem_cons_self))
      rw [pool.put_other elsewhere]
      exact ih fun event member => absent event (List.mem_append_left _ member)

theorem only_thread (run : Run perform condition start trace pool)
    (finished : ∀ other, other ≠ thread →
      ∃ value, start.threads other = .done value) :
    Run perform (fun _ event => event.thread = thread) start trace pool ∧
      ∀ other, other ≠ thread → pool.threads other = start.threads other := by
  induction run with
  | start => exact ⟨.start, fun _ _ => rfl⟩
  | @step trace pool caller request next answer world _ waiting _ performed
      ih =>
      obtain ⟨run, idle⟩ := ih
      have own : caller = thread := by
        by_contra different
        obtain ⟨value, done⟩ := finished caller different
        rw [idle caller different, done] at waiting
        cases waiting
      subst own
      refine ⟨run.step waiting rfl performed, fun other different => ?_⟩
      rw [pool.put_other different, idle other different]

theorem nothing (run : Run perform condition start [] pool) : pool = start := by
  generalize empty : ([] : List (Event Thread Call Answer)) = events at run
  cases run with
  | start => rfl
  | step => simp at empty

theorem of_append (run : Run perform condition start (earlier ++ later) final) :
    ∃ pool, Run perform condition start earlier pool := by
  induction later using List.reverseRecOn generalizing final with
  | nil =>
    rw [List.append_nil] at run
    exact ⟨final, run⟩
  | append_singleton later event ih =>
    rw [← List.append_assoc] at run
    obtain ⟨pool, -, -, before, -⟩ := run.last
    exact ih before

theorem unique {left right : Pool Thread World Call Answer Result}
    (first : Run perform condition start trace left)
    (second : Run perform condition start trace right) : left = right := by
  induction trace using List.reverseRecOn generalizing left right with
  | nil => rw [first.nothing, second.nothing]
  | append_singleton trace event ih =>
    obtain ⟨pool, next, world, run, waiting, -, performed, rfl⟩ :=
      first.last
    obtain ⟨pool', next', world', run', waiting', -, performed', rfl⟩ :=
      second.last
    cases ih run run'
    rw [waiting] at waiting'
    cases waiting'
    rw [performed] at performed'
    cases performed'
    rfl

theorem keeps {property : World → Prop}
    (kept : ∀ thread world request answer after,
      perform thread world request answer = some after →
        property world → property after)
    {middle : Pool Thread World Call Answer Result}
    (first : Run perform condition start earlier middle)
    (whole : Run perform condition start (earlier ++ later) final)
    (holds : property middle.world) : property final.world := by
  induction later using List.reverseRecOn generalizing final with
  | nil =>
    rw [List.append_nil] at whole
    rwa [whole.unique first]
  | append_singleton later event ih =>
    rw [← List.append_assoc] at whole
    obtain ⟨pool, next, world, run, -, -, performed, rfl⟩ := whole.last
    exact kept _ _ _ _ _ performed (ih run)

end Run

/-- The executable reading of a run: replay a list of events, each of which
has to pass `check`. -/
def replay [DecidableEq Call] (perform : Perform Thread World Call Answer)
    (check : Moment Thread World Call Answer → Event Thread Call Answer →
      Bool) :
    List (Event Thread Call Answer) → Pool Thread World Call Answer Result →
      List (Event Thread Call Answer) →
        Option (Pool Thread World Call Answer Result)
  | _, pool, [] => some pool
  | past, pool, event :: events =>
    match pool.threads event.thread with
    | .done _ => none
    | .call request next =>
      if same : event.request = request then
        if check ⟨pool.world, past⟩ event then
          match perform event.thread pool.world request
              (same ▸ event.answer) with
          | none => none
          | some world => replay perform check (past ++ [event])
              (pool.put event.thread world (next (same ▸ event.answer)))
              events
        else none
      else none

theorem Run.append_replay [DecidableEq Call]
    (checked : ∀ moment event, check moment event = true →
      condition moment event) {pool : Pool Thread World Call Answer Result}
    {trace : List (Event Thread Call Answer)}
    (run : Run perform condition start trace pool)
    (replayed : replay perform check trace pool events = some final) :
    Run perform condition start (trace ++ events) final := by
  induction events generalizing pool trace with
  | nil =>
    simp only [replay, Option.some.injEq] at replayed
    subst replayed
    simpa using run
  | cons event events ih =>
    obtain ⟨thread, request, answer⟩ := event
    simp only [replay] at replayed
    split at replayed
    · cases replayed
    · rename_i waitingRequest next waiting
      split at replayed
      · rename_i same
        cases same
        split at replayed
        · rename_i passes
          split at replayed
          · cases replayed
          · rename_i world performed
            have extended := ih
              (run.step waiting (checked _ _ passes) performed) replayed
            simpa using extended
        · cases replayed
      · cases replayed

theorem Run.of_replay [DecidableEq Call]
    (checked : ∀ moment event, check moment event = true →
      condition moment event)
    (replayed : replay perform check [] start events = some final) :
    Run perform condition start events final := by
  simpa using Run.start.append_replay checked replayed

/-- A replayed trace is a run to a pool that can be looked at. -/
theorem Run.exists_of_replay [DecidableEq Call]
    (checked : ∀ moment event, check moment event = true →
      condition moment event) {Seen : Type}
    {view : Pool Thread World Call Answer Result → Seen} {seen : Seen}
    (replayed : (replay perform check [] start events).map view = some seen) :
    ∃ final, Run perform condition start events final ∧ view final = seen := by
  obtain ⟨final, reached, viewed⟩ := Option.map_eq_some_iff.mp replayed
  exact ⟨final, Run.of_replay checked reached, viewed⟩

end Process
