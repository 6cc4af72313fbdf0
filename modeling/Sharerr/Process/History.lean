import Sharerr.Process.Pool

/-!
# What a program does in view of what it was answered

The history of a thread is what it asked so far, with the answers.
`Prog.Along` says of a program that each of its requests is allowed after the
history before it; whatever the other threads do, the requests of a run then
are (`Run.along`).
-/

namespace Process

/-- The requests a thread made so far, each with its answer. -/
abbrev History {Call : Type} (Answer : Call → Type) :=
  List ((request : Call) × Answer request)

namespace Prog

variable {Call : Type} {Answer : Call → Type} {α β ε σ : Type}
variable {honest : ∀ request, Answer request → Prop}
variable {allowed : History Answer → Call → Prop}

/-- As long as every answer is an honest one, each request of the program is
allowed after the history before it, and the value it ends with is as `post`
says. -/
def Along (honest : ∀ request, Answer request → Prop)
    (allowed : History Answer → Call → Prop)
    (post : α → History Answer → Prop) :
    Prog Call Answer α → History Answer → Prop
  | .done value, seen => post value seen
  | .call request next, seen => allowed seen request ∧
      ∀ answer, honest request answer →
        (next answer).Along honest allowed post (seen ++ [⟨request, answer⟩])

namespace Along

variable {program : Prog Call Answer α} {seen : History Answer}

theorem mono {post weaker : α → History Answer → Prop}
    (along : program.Along honest allowed post seen)
    (implies : ∀ value later, post value later → weaker value later) :
    program.Along honest allowed weaker seen := by
  induction program generalizing seen with
  | done value => exact implies value seen along
  | call request next ih =>
    exact ⟨along.1, fun answer true_ => ih answer (along.2 answer true_)⟩

theorem bind {middle : α → History Answer → Prop}
    {post : β → History Answer → Prop} {rest : α → Prog Call Answer β}
    (first : program.Along honest allowed middle seen)
    (second : ∀ value later, middle value later →
      (rest value).Along honest allowed post later) :
    (program.bind rest).Along honest allowed post seen := by
  induction program generalizing seen with
  | done value => exact second value seen first
  | call request next ih =>
    exact ⟨first.1, fun answer true_ => ih answer (first.2 answer true_)⟩

theorem proceed {post : Except ε β → History Answer → Prop} {value : Except ε α}
    {rest : α → Prog Call Answer (Except ε β)}
    (failed : ∀ reason, value = .error reason → post (.error reason) seen)
    (went : ∀ result, value = .ok result →
      (rest result).Along honest allowed post seen) :
    (Prog.proceed value rest).Along honest allowed post seen := by
  cases value with
  | error reason => exact failed reason rfl
  | ok result => exact went result rfl

/-- A loop keeps `invariant`, which sees the items still to come. -/
theorem fold {step : σ → α → Prog Call Answer σ}
    (invariant : List α → σ → History Answer → Prop)
    (body : ∀ item items state seen, invariant (item :: items) state seen →
      (step state item).Along honest allowed (invariant items) seen) :
    ∀ items state seen, invariant items state seen →
      (Prog.fold step state items).Along honest allowed (invariant []) seen
  | [], _, _, holds => holds
  | item :: items, state, seen, holds =>
    (body item items state seen holds).bind fun next later kept =>
      fold invariant body items next later kept

/-- Requests that are allowed after every history that is as `frame` says,
where every honest answer to them leaves it so. -/
theorem of_only {harmless : Call → Prop} {frame : History Answer → Prop}
    (kept : ∀ seen request, harmless request → frame seen →
      allowed seen request ∧ ∀ answer, honest request answer →
        frame (seen ++ [⟨request, answer⟩])) (only : program.Only harmless)
    (holds : frame seen) :
    program.Along honest allowed (fun _ later => frame later) seen := by
  induction program generalizing seen with
  | done value => exact holds
  | call request next ih =>
    obtain ⟨here, later⟩ := kept seen request only.1 holds
    exact ⟨here, fun answer true_ =>
      ih answer (only.2 answer) (later answer true_)⟩

theorem cut {post : α → History Answer → Prop}
    (along : program.Along honest allowed post seen) (budget : Nat) :
    (program.cut budget).Along honest allowed (fun _ _ => True) seen := by
  induction program generalizing seen budget with
  | done value => cases budget <;> trivial
  | call request next ih =>
    cases budget with
    | zero => trivial
    | succ budget =>
      exact ⟨along.1, fun answer true_ =>
        ih answer (along.2 answer true_) budget⟩

end Along

end Prog

section Runs

variable {Thread World Call : Type} {Answer : Call → Type} {Result : Type}
variable [DecidableEq Thread]

/-- Whether an entry that `begins` came, and none that `ends` came since. -/
def lately {α : Type} (begins ends : α → Bool) (past : List α) : Bool :=
  past.foldl (fun going entry => begins entry || going && !ends entry) false

variable {α : Type} {begins ends : α → Bool}

@[simp] theorem lately_append (past : List α) (entry : α) :
    lately begins ends (past ++ [entry]) =
      (begins entry || lately begins ends past && !ends entry) := by
  rw [lately, List.foldl_append]
  rfl

theorem lately_eq_false {past : List α}
    (never : ∀ entry ∈ past, begins entry = false) :
    lately begins ends past = false := by
  induction past using List.reverseRecOn with
  | nil => rfl
  | append_singleton past entry ih =>
    rw [lately_append, never entry (by simp),
      ih fun other member => never other (by simp [member])]
    rfl

/-- What a thread asked and was answered in a run. -/
def historyOf (thread : Thread) (events : List (Event Thread Call Answer)) :
    History Answer :=
  (events.filter fun event => event.thread = thread).map fun event =>
    ⟨event.request, event.answer⟩

theorem mem_historyOf {thread : Thread}
    {events : List (Event Thread Call Answer)} {request : Call}
    {answer : Answer request} :
    ⟨request, answer⟩ ∈ historyOf thread events ↔
      ⟨thread, request, answer⟩ ∈ events := by
  rw [historyOf, List.mem_map]
  constructor
  · rintro ⟨⟨other, asked, given⟩, member, same⟩
    obtain ⟨here, own⟩ := List.mem_filter.mp member
    simp only [decide_eq_true_eq] at own
    subst own
    cases same
    exact here
  · intro member
    exact ⟨_, List.mem_filter.mpr ⟨member, by simp⟩, rfl⟩

theorem historyOf_append (thread : Thread)
    (events : List (Event Thread Call Answer))
    (event : Event Thread Call Answer) :
    historyOf thread (events ++ [event]) =
      if event.thread = thread then
        historyOf thread events ++ [⟨event.request, event.answer⟩]
      else historyOf thread events := by
  by_cases own : event.thread = thread
  · simp [historyOf, own]
  · simp [historyOf, own]

theorem split_of_historyOf {thread : Thread}
    {events : List (Event Thread Call Answer)} {earlier : History Answer}
    {last : (request : Call) × Answer request}
    (history : historyOf thread events = earlier ++ [last]) :
    ∃ before after, events = before ++ ⟨thread, last.1, last.2⟩ :: after ∧
      historyOf thread before = earlier ∧
        ∀ event ∈ after, event.thread ≠ thread := by
  induction events using List.reverseRecOn with
  | nil => cases earlier <;> cases history
  | append_singleton events event ih =>
    rw [historyOf_append] at history
    by_cases own : event.thread = thread
    · rw [if_pos own] at history
      obtain ⟨rfl, same⟩ := List.append_inj' history rfl
      obtain ⟨other, request, answer⟩ := event
      subst own
      rw [← List.singleton_inj.mp same]
      exact ⟨events, [], rfl, rfl, by simp⟩
    · rw [if_neg own] at history
      obtain ⟨before, after, rfl, same, others⟩ := ih history
      refine ⟨before, after ++ [event], by simp, same, ?_⟩
      intro other member
      rcases List.mem_append.mp member with old | new
      · exact others other old
      · rw [List.mem_singleton.mp new]
        exact own

variable {perform : Perform Thread World Call Answer}
variable {condition : Condition Thread World Call Answer}
variable {start final : Pool Thread World Call Answer Result}
variable {events : List (Event Thread Call Answer)} {thread : Thread}
variable {honest : ∀ request, Answer request → Prop}
variable {allowed : History Answer → Call → Prop}
variable {post : Result → History Answer → Prop}

/-- In a run that gives honest answers a thread is all along where its program
led. -/
theorem Run.along (run : Run perform condition start events final)
    (truthful : ∀ moment request answer after,
      condition moment ⟨thread, request, answer⟩ →
        perform thread moment.world request answer = some after →
          honest request answer)
    (along : (start.threads thread).Along honest allowed post []) :
    (final.threads thread).Along honest allowed post
      (historyOf thread events) := by
  induction run with
  | start => exact along
  | @step events pool other request next answer world _ waiting meets
      performed ih =>
      rw [historyOf_append]
      by_cases own : other = thread
      · subst own
        rw [waiting] at ih
        rw [if_pos rfl, Pool.put_same]
        exact ih.2 answer (truthful _ _ _ _ meets performed)
      · rw [if_neg own, pool.put_other (Ne.symm own)]
        exact ih

theorem Run.allowed_of_along {event : Event Thread Call Answer}
    (run : Run perform condition start (events ++ [event]) final)
    (own : event.thread = thread)
    (truthful : ∀ moment request answer after,
      condition moment ⟨thread, request, answer⟩ →
        perform thread moment.world request answer = some after →
          honest request answer)
    (along : (start.threads thread).Along honest allowed post []) :
    allowed (historyOf thread events) event.request := by
  obtain ⟨pool, next, world, before, waiting, -, -, -⟩ := run.last
  have here := before.along truthful along
  rw [← own, waiting] at here
  rw [← own]
  exact here.1

end Runs

end Process
