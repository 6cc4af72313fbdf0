import Mathlib.Logic.Relation
import Sharerr.Process.Pool

/-!
# Rely–guarantee safety

`Safe protocol thread post program moment` says what a thread can promise
about its program from a moment on, whatever the other threads do inside
their guarantees: every call it makes keeps the invariant and its own
guarantee, and when it finishes its value satisfies `post` at that moment.
`Run.sound` composes the threads of a pool into a fact about every
interleaving.
-/

namespace Process

variable {Thread World Call : Type} {Answer : Call → Type}
variable {Result α β ε σ : Type}

/-- What the threads of a system agree on. -/
structure Protocol (Thread World Call : Type) (Answer : Call → Type) where
  /-- What a call does. -/
  perform : Perform Thread World Call Answer
  /-- The steps that are considered at all. -/
  condition : Condition Thread World Call Answer
  /-- What holds between any two calls. -/
  invariant : Moment Thread World Call Answer → Prop
  /-- What each call of a thread does. -/
  guarantee : Thread → Moment Thread World Call Answer →
    Moment Thread World Call Answer → Prop

/-- A call of `thread` with its answer, seen from the moment before. -/
structure Performed (protocol : Protocol Thread World Call Answer)
    (thread : Thread) (before : Moment Thread World Call Answer)
    (request : Call) (answer : Answer request)
    (after : Moment Thread World Call Answer) : Prop where
  holds : protocol.invariant before
  meets : protocol.condition before ⟨thread, request, answer⟩
  performed : protocol.perform thread before.world request answer =
    some after.world
  past : after.past = before.past ++ [⟨thread, request, answer⟩]

/-- What a thread has to put up with between two of its calls. -/
def Protocol.Others (protocol : Protocol Thread World Call Answer)
    (thread : Thread) (before after : Moment Thread World Call Answer) :
    Prop :=
  ∃ other, other ≠ thread ∧ protocol.guarantee other before after ∧
    protocol.invariant after ∧
      ∃ request answer, Performed protocol other before request answer after

/-- A property the other threads do not disturb. -/
def Protocol.Stable (protocol : Protocol Thread World Call Answer)
    (thread : Thread) (property : Moment Thread World Call Answer → Prop) :
    Prop :=
  ∀ before after, property before → protocol.Others thread before after →
    property after

variable {protocol : Protocol Thread World Call Answer} {thread : Thread}

theorem Protocol.Stable.later
    {property : Moment Thread World Call Answer → Prop}
    (stable : protocol.Stable thread property)
    {before after : Moment Thread World Call Answer} (holds : property before)
    (others : Relation.ReflTransGen (protocol.Others thread) before after) :
    property after := by
  induction others with
  | refl => exact holds
  | tail _ step ih => exact stable _ _ ih step

theorem Protocol.Stable.and
    {left right : Moment Thread World Call Answer → Prop}
    (first : protocol.Stable thread left)
    (second : protocol.Stable thread right) :
    protocol.Stable thread fun moment => left moment ∧ right moment :=
  fun before after holds others =>
    ⟨first before after holds.1 others, second before after holds.2 others⟩

theorem Protocol.Stable.of_performed
    {property : Moment Thread World Call Answer → Prop}
    (kept : ∀ other before request answer after,
      Performed protocol other before request answer after →
        property before → property after) :
    protocol.Stable thread property := by
  rintro before after holds ⟨other, -, -, -, request, answer, performed⟩
  exact kept other before request answer after performed holds

/-- What a thread can promise from a moment on. -/
def Safe (protocol : Protocol Thread World Call Answer) (thread : Thread)
    (post : α → Moment Thread World Call Answer → Prop) :
    Prog Call Answer α → Moment Thread World Call Answer → Prop
  | .done value, moment => post value moment
  | .call request next, moment =>
    ∀ before,
      Relation.ReflTransGen (protocol.Others thread) moment before →
        ∀ answer after,
          Performed protocol thread before request answer after →
            protocol.invariant after ∧
              protocol.guarantee thread before after ∧
                Safe protocol thread post (next answer) after

namespace Safe

variable {protocol : Protocol Thread World Call Answer} {thread : Thread}

variable {moment : Moment Thread World Call Answer}
  {post : α → Moment Thread World Call Answer → Prop}
  {property : Moment Thread World Call Answer → Prop}
  {program : Prog Call Answer α} {allowed : Call → Prop}

theorem call {request : Call} {next : Answer request → Prog Call Answer α}
    (stable : protocol.Stable thread property) (holds : property moment)
    (step : ∀ before answer after, property before →
      Performed protocol thread before request answer after →
        protocol.invariant after ∧ protocol.guarantee thread before after ∧
          Safe protocol thread post (next answer) after) :
    Safe protocol thread post (.call request next) moment := by
  intro before others answer after performed
  exact step before answer after (stable.later holds others) performed

theorem mono {weaker : α → Moment Thread World Call Answer → Prop}
    (safe : Safe protocol thread post program moment)
    (implies : ∀ value moment, post value moment → weaker value moment) :
    Safe protocol thread weaker program moment := by
  induction program generalizing moment with
  | done value => exact implies value moment safe
  | call request next ih =>
    intro before others answer after performed
    obtain ⟨holds, kept, rest⟩ := safe before others answer after performed
    exact ⟨holds, kept, ih answer rest⟩

theorem bind {middle : α → Moment Thread World Call Answer → Prop}
    {post : β → Moment Thread World Call Answer → Prop}
    {rest : α → Prog Call Answer β}
    (first : Safe protocol thread middle program moment)
    (second : ∀ value moment, middle value moment →
      Safe protocol thread post (rest value) moment) :
    Safe protocol thread post (program.bind rest) moment := by
  induction program generalizing moment with
  | done value => exact second value moment first
  | call request next ih =>
    intro before others answer after performed
    obtain ⟨holds, kept, safe⟩ := first before others answer after
      performed
    exact ⟨holds, kept, ih answer safe⟩

theorem proceed {post : Except ε β → Moment Thread World Call Answer → Prop}
    {value : Except ε α} {rest : α → Prog Call Answer (Except ε β)}
    (failed : ∀ reason, value = .error reason → post (.error reason) moment)
    (went : ∀ result, value = .ok result →
      Safe protocol thread post (rest result) moment) :
    Safe protocol thread post (Prog.proceed value rest) moment := by
  cases value with
  | error reason => exact failed reason rfl
  | ok result => exact went result rfl

/-- What the others leave alone and the calls of the program keep holds at the
end too. -/
theorem framed {allowed : Call → Prop}
    {post : α → Moment Thread World Call Answer → Prop}
    {property : Moment Thread World Call Answer → Prop}
    {program : Prog Call Answer α} {moment : Moment Thread World Call Answer}
    (stable : protocol.Stable thread property)
    (kept : ∀ before request answer after, allowed request →
      Performed protocol thread before request answer after →
        property before → property after)
    (only : program.Only allowed)
    (safe : Safe protocol thread post program moment)
    (holds : property moment) :
    Safe protocol thread
      (fun value after => post value after ∧ property after) program
        moment := by
  induction program generalizing moment with
  | done value => exact ⟨safe, holds⟩
  | call request next ih =>
    intro before others answer after performed
    obtain ⟨invariant, guarantee, rest⟩ :=
      safe before others answer after performed
    have reached := stable.later holds others
    exact ⟨invariant, guarantee, ih answer (only.2 answer) rest
      (kept _ _ _ _ only.1 performed reached)⟩

theorem frame {post : α → Moment Thread World Call Answer → Prop}
    {property : Moment Thread World Call Answer → Prop}
    (kept : ∀ other before request answer after,
      Performed protocol other before request answer after →
        property before → property after)
    {program : Prog Call Answer α} {moment : Moment Thread World Call Answer}
    (safe : Safe protocol thread post program moment)
    (holds : property moment) :
    Safe protocol thread
      (fun value after => post value after ∧ property after) program
        moment :=
  framed (Protocol.Stable.of_performed kept)
    (fun before request answer after _ performed =>
      kept thread before request answer after performed)
    (Prog.Only.any program) safe holds

theorem returns {good : α → Prop}
    (safe : Safe protocol thread post program moment)
    (returning : program.Returns good) :
    Safe protocol thread (fun value after => post value after ∧ good value)
      program moment := by
  induction program generalizing moment with
  | done value => exact ⟨safe, returning⟩
  | call request next ih =>
    intro before others answer after performed
    obtain ⟨invariant, guarantee, rest⟩ :=
      safe before others answer after performed
    exact ⟨invariant, guarantee, ih answer rest (returning answer)⟩

theorem cut (holds : protocol.invariant moment)
    (safe : Safe protocol thread post program moment) (budget : Nat) :
    Safe protocol thread (fun _ after => protocol.invariant after)
      (program.cut budget) moment := by
  induction program generalizing moment budget with
  | done value => cases budget <;> exact holds
  | call request next ih =>
    cases budget with
    | zero => exact holds
    | succ budget =>
      intro before others answer after performed
      obtain ⟨kept, guaranteed, rest⟩ :=
        safe before others answer after performed
      exact ⟨kept, guaranteed, ih answer kept rest budget⟩

/-- A loop keeps `invariant`, which sees the items still to come. -/
theorem fold {step : σ → α → Prog Call Answer σ}
    (invariant : List α → σ → Moment Thread World Call Answer → Prop)
    (body : ∀ item items state moment,
      invariant (item :: items) state moment →
        Safe protocol thread (fun next after => invariant items next after)
          (step state item) moment) :
    ∀ items state moment, invariant items state moment →
      Safe protocol thread (fun final after => invariant [] final after)
        (Prog.fold step state items) moment
  | [], _, _, holds => holds
  | item :: items, state, moment, holds =>
    Safe.bind (body item items state moment holds) fun next after kept =>
      Safe.fold invariant body items next after kept

theorem of_ensures {honest : ∀ request, Answer request → Prop} {good : α → Prop}
    {frame : Moment Thread World Call Answer → Prop}
    (stable : protocol.Stable thread frame)
    (kept : ∀ before request answer after, allowed request →
      frame before → Performed protocol thread before request answer after →
        honest request answer ∧ protocol.invariant after ∧
          protocol.guarantee thread before after ∧ frame after)
    (ensures : program.Ensures allowed honest good) (holds : frame moment) :
    Safe protocol thread (fun value after => good value ∧ frame after)
      program moment := by
  induction program generalizing moment with
  | done value => exact ⟨ensures, holds⟩
  | call request next ih =>
    apply Safe.call stable holds
    intro before answer after held performed
    obtain ⟨true_, invariant, guarantee, framed⟩ :=
      kept before request answer after ensures.1 held performed
    exact ⟨invariant, guarantee, ih answer (ensures.2 answer true_) framed⟩

theorem of_only {frame : Moment Thread World Call Answer → Prop}
    (stable : protocol.Stable thread frame)
    (kept : ∀ before request answer after, allowed request →
      frame before → Performed protocol thread before request answer after →
        protocol.invariant after ∧ protocol.guarantee thread before after ∧
          frame after) (only : program.Only allowed) (holds : frame moment) :
    Safe protocol thread (fun _ after => frame after) program moment := by
  have ensures : program.Ensures allowed (fun _ _ => True) fun _ => True :=
    Prog.Ensures.of_only only
  refine (of_ensures stable ?_ ensures holds).mono fun _ _ both => both.2
  intro before request answer after permitted held performed
  exact ⟨trivial, kept before request answer after permitted held performed⟩

theorem later {after : Moment Thread World Call Answer}
    (stable : ∀ value, protocol.Stable thread (post value))
    (safe : Safe protocol thread post program moment)
    (others : protocol.Others thread moment after) :
    Safe protocol thread post program after := by
  cases program with
  | done value => exact stable value moment after safe others
  | call request next =>
    intro before reached
    exact safe before (.head others reached)

end Safe

section Pools

variable [DecidableEq Thread]

/-- A pool all of whose threads are safe, at a moment that satisfies the
invariant. -/
structure Sound (protocol : Protocol Thread World Call Answer)
    (post : Thread → Result → Moment Thread World Call Answer → Prop)
    (trace : List (Event Thread Call Answer))
    (pool : Pool Thread World Call Answer Result) : Prop where
  holds : protocol.invariant ⟨pool.world, trace⟩
  safe : ∀ thread, Safe protocol thread (post thread) (pool.threads thread)
    ⟨pool.world, trace⟩

variable {protocol : Protocol Thread World Call Answer}
  {post : Thread → Result → Moment Thread World Call Answer → Prop}
  {trace : List (Event Thread Call Answer)}
  {start pool : Pool Thread World Call Answer Result}

/-- One step of a sound pool: it is sound again, and the guarantee is
kept. -/
theorem Sound.step {thread : Thread} {request : Call}
    {next : Answer request → Prog Call Answer Result}
    {answer : Answer request} {world : World}
    (stable : ∀ thread value, protocol.Stable thread (post thread value))
    (sound : Sound protocol post trace pool)
    (waiting : pool.threads thread = .call request next)
    (meets : protocol.condition ⟨pool.world, trace⟩
      ⟨thread, request, answer⟩)
    (performed : protocol.perform thread pool.world request answer =
      some world) :
    Sound protocol post (trace ++ [⟨thread, request, answer⟩])
        (pool.put thread world (next answer)) ∧
      protocol.guarantee thread ⟨pool.world, trace⟩
        ⟨world, trace ++ [⟨thread, request, answer⟩]⟩ := by
  have safe := sound.safe thread
  rw [waiting] at safe
  have step : Performed protocol thread ⟨pool.world, trace⟩ request answer
      ⟨world, trace ++ [⟨thread, request, answer⟩]⟩ :=
    { holds := sound.holds, meets, performed, past := rfl }
  obtain ⟨holds, kept, rest⟩ := safe _ .refl answer _ step
  refine ⟨⟨holds, fun other => ?_⟩, kept⟩
  by_cases same : other = thread
  · subst same
    rw [Pool.put_same]
    exact rest
  · rw [Pool.put_other pool same]
    exact (sound.safe other).later (stable other)
      ⟨thread, Ne.symm same, kept, holds, request, answer, step⟩

/-- Safe threads stay safe along every interleaving, and the invariant holds
at every moment of it. -/
theorem Run.sound
    (stable : ∀ thread value, protocol.Stable thread (post thread value))
    (run : Run protocol.perform protocol.condition start trace pool)
    (sound : Sound protocol post [] start) :
    Sound protocol post trace pool := by
  induction run with
  | start => exact sound
  | step run waiting meets performed ih =>
    exact (ih.step stable waiting meets performed).1

omit [DecidableEq Thread] in
theorem Sound.finished {thread : Thread} {value : Result}
    (sound : Sound protocol post trace pool)
    (finished : pool.threads thread = .done value) :
    post thread value ⟨pool.world, trace⟩ := by
  have safe := sound.safe thread
  rwa [finished] at safe

end Pools

end Process
