import Sharerr.Gluetun.Polls

/-!
# A port that was given up

When gluetun says that its port is gone, everything observed is forgotten.  A
port learned before stays away until gluetun reports it again, provided that no
poll publishes what it read or asked for before the forgetting.
-/

namespace Sharerr

namespace Gluetun

open Process (Run historyOf afterLast split_last)

def forgets (event : Event) : Bool := event.request = .forgetDynamic

/-- A base with this port was observed. -/
def Learned (past : List Event) (port : UInt16) : Prop :=
  ∃ event ∈ past, ∃ base, event.request = .observe base ∧
    base.portOrKnownDefault = some port

/-- Gluetun gave this port in answer to a request that was made in `past`. -/
def Reported (past : List Event) (port : UInt16) : Prop :=
  ∃ before thread after answers,
    past = before ++ ⟨thread, .send, ()⟩ :: after ∧
      ⟨thread, .receive, answers⟩ ∈ after ∧
      answers.forwardedPort = .ok port

/-- A port learned before some forgetting, and not reported since. -/
def Dead (past : List Event) (port : UInt16) : Prop :=
  ∃ before forgetting after, past = before ++ forgetting :: after ∧
    forgets forgetting = true ∧ Learned before port ∧ ¬ Reported after port

theorem Reported.append {past : List Event} {port : UInt16}
    (reported : Reported past port) (front back : List Event) :
    Reported (front ++ past ++ back) port := by
  obtain ⟨before, thread, after, answers, rfl, member, answered⟩ := reported
  refine ⟨front ++ before, thread, after ++ back, answers, by simp, ?_,
    answered⟩
  exact List.mem_append_left _ member

theorem Reported.snoc {past : List Event} {port : UInt16}
    (reported : Reported past port) (event : Event) :
    Reported (past ++ [event]) port := by
  simpa using reported.append [] [event]

theorem Dead.of_append {past : List Event} {event : Event} {port : UInt16}
    (dead : Dead (past ++ [event]) port) (kept : forgets event = false) :
    Dead past port := by
  obtain ⟨before, forgetting, after, whole, isForget, learned, unreported⟩ :=
    dead
  rcases split_last whole with ⟨_, rfl⟩ | ⟨rest, rfl, split⟩
  · rw [kept] at isForget
    cases isForget
  · refine ⟨before, forgetting, rest, split, isForget, learned, ?_⟩
    intro reported
    exact unreported (reported.snoc event)

/-- A base is only observed at the end of a poll, and comes from what the poll
read and was answered. -/
def Published (seen : Process.History Answer) : Call → Prop
  | .observe base => ∃ earlier observed answers,
      seen = earlier ++ [⟨.lastObserved, observed⟩] ++ [⟨.send, ()⟩] ++
        [⟨.receive, answers⟩] ∧
      Answers.resolveBase answers (fallbackPort observed) = .ok base
  | _ => True

abbrev Publishes (program : Process.Prog Call Answer Unit)
    (seen : Process.History Answer) : Prop :=
  program.Along (fun _ _ => True) Published (fun _ _ => True) seen

theorem pollOnce_publishes (seen : Process.History Answer) :
    Publishes pollOnce seen := by
  refine ⟨trivial, ?_⟩
  intro ready _
  cases ready with
  | false => trivial
  | true =>
    refine ⟨trivial, ?_⟩
    intro observed _
    refine ⟨trivial, ?_⟩
    intro _ _
    refine ⟨trivial, ?_⟩
    intro answers _
    dsimp only
    split
    case h_1 base resolved =>
        refine ⟨⟨_, observed, answers, rfl, resolved⟩, ?_⟩
        intro _ _
        trivial
    case h_2 => trivial

theorem pollLoop_publishes (rounds : Nat) (seen : Process.History Answer) :
    Publishes (pollLoop rounds) seen := by
  induction rounds generalizing seen with
  | zero => trivial
  | succ rounds ih =>
    apply (pollOnce_publishes seen).bind
    intro _ later _
    refine ⟨trivial, ?_⟩
    intro _ _
    exact ih _

theorem program_publishes (job : Job) : Publishes job.program [] := by
  cases job with
  | idle => trivial
  | poll rounds => exact pollLoop_publishes rounds []
  | down =>
    refine ⟨trivial, ?_⟩
    intro _ _
    refine ⟨trivial, ?_⟩
    intro _ _
    trivial
  | refresh =>
    refine ⟨trivial, ?_⟩
    intro _ _
    trivial
  | saved staticBase =>
    refine ⟨trivial, ?_⟩
    intro _ _
    trivial

theorem port_of_resolveBase {answers : Answers} {fallback : Option UInt16}
    {base : Url} (resolved : answers.resolveBase fallback = .ok base) :
    ∃ port, base.portOrKnownDefault = some port ∧
      (answers.port = .ok port ∨
        answers.port.toOption = none ∧ fallback = some port) := by
  obtain ⟨address, _, resolved⟩ := Rust.bind_eq_ok resolved
  obtain ⟨port, chosen, resolved⟩ := Rust.bind_eq_ok resolved
  cases resolved
  refine ⟨port, Url.portOrKnownDefault_ofSocket address port, ?_⟩
  rw [Answers.portOr.eq_def] at chosen
  cases given : answers.port with
  | ok other =>
    rw [given] at chosen
    cases chosen
    exact Or.inl rfl
  | error err =>
    rw [given] at chosen
    cases fallback with
    | some other =>
      cases chosen
      exact Or.inr ⟨rfl, rfl⟩
    | none => cases chosen

theorem forwardedPort_of_port {answers : Answers} {port : UInt16}
    (given : answers.port = .ok port) : answers.forwardedPort = .ok port := by
  obtain ⟨other, forwarded, given⟩ := Rust.bind_eq_ok given
  split at given
  case isTrue => cases given
  case isFalse =>
      cases given
      exact forwarded

/-- The port gluetun gave in an answer. -/
def givenPort : Event → Option UInt16
  | ⟨_, .receive, answers⟩ => answers.port.toOption
  | _ => none

/-- Whether the poll of a thread rests on nothing from before these events: it
has read the last observation, or asked gluetun and was given the port. -/
def restsOn (events : List Event) (thread : Nat) : Bool :=
  (events.any fun event =>
      event.thread = thread && event.request = .lastObserved) ||
    (events.any fun event =>
        event.thread = thread && event.request = .send) &&
      events.any fun event =>
        event.thread = thread && (givenPort event).isSome

theorem restsOn_iff (events : List Event) (thread : Nat) :
    restsOn events thread = true ↔
      (∃ event ∈ events, event.thread = thread ∧
        event.request = .lastObserved) ∨
      (∃ event ∈ events, event.thread = thread ∧ event.request = .send) ∧
        ∃ event ∈ events, event.thread = thread ∧
          (givenPort event).isSome = true := by
  simp [restsOn]

/-- No poll publishes what it read or asked for before the last forgetting. -/
def Current (moment : Moment) (event : Event) : Prop :=
  ∀ base, event.request = .observe base →
    restsOn (afterLast forgets moment.past) event.thread = true

/-- The answers a base was resolved from, found in a run. -/
structure Poll (past : List Event) (thread : Nat) (base : Url) where
  start : List Event
  observed : Option ObservedBase
  asked : List Event
  waited : List Event
  answers : Answers
  rest : List Event
  whole : past = start ++ ⟨thread, .lastObserved, observed⟩ ::
    (asked ++ ⟨thread, .send, ()⟩ ::
      (waited ++ ⟨thread, .receive, answers⟩ :: rest))
  quiet : ∀ event ∈ asked ++ waited ++ rest, event.thread ≠ thread
  resolved : answers.resolveBase (fallbackPort observed) = .ok base

namespace Poll

variable {past : List Event} {thread : Nat} {base : Url}
  (poll : Poll past thread base)

def read : Event := ⟨thread, .lastObserved, poll.observed⟩

def received : Event := ⟨thread, .receive, poll.answers⟩

def afterSend : List Event := poll.waited ++ poll.received :: poll.rest

def afterRead : List Event :=
  poll.asked ++ ⟨thread, .send, ()⟩ :: poll.afterSend

theorem split : past = poll.start ++ poll.read :: poll.afterRead :=
  poll.whole

theorem own_afterRead {event : Event} (member : event ∈ poll.afterRead)
    (own : event.thread = thread) :
    event = ⟨thread, .send, ()⟩ ∨
      event = poll.received ∧ event ∈ poll.afterSend := by
  rcases List.mem_append.mp member with asked | member
  · exact absurd own (poll.quiet event (by simp [asked]))
  · rcases List.mem_cons.mp member with rfl | member
    · exact Or.inl rfl
    · refine Or.inr ⟨?_, member⟩
      rcases List.mem_append.mp member with waited | member
      · exact absurd own (poll.quiet event (by simp [waited]))
      · rcases List.mem_cons.mp member with rfl | rest
        · rfl
        · exact absurd own (poll.quiet event (by simp [rest]))

theorem own_afterSend {event : Event} (member : event ∈ poll.afterSend)
    (own : event.thread = thread) : event = poll.received := by
  rcases List.mem_append.mp member with waited | member
  · exact absurd own (poll.quiet event (by simp [waited]))
  · rcases List.mem_cons.mp member with rfl | rest
    · rfl
    · exact absurd own (poll.quiet event (by simp [rest]))

theorem read_suffix {ending : List Event} (ends : ending <:+ past)
    (some_ : ∃ event ∈ ending,
      event.thread = thread ∧ event.request = .lastObserved) :
    poll.read :: poll.afterRead <:+ ending := by
  apply Process.suffix_of_marked poll.split ends some_
  intro event member marked
  rcases poll.own_afterRead member marked.1 with rfl | ⟨rfl, _⟩
  · cases marked.2
  · cases marked.2

theorem send_suffix {ending : List Event} (ends : ending <:+ past)
    (none_ : ¬ ∃ event ∈ ending,
      event.thread = thread ∧ event.request = .lastObserved)
    (some_ : ∃ event ∈ ending,
      event.thread = thread ∧ event.request = .send) :
    ending <:+ poll.afterRead ∧
      ⟨thread, .send, ()⟩ :: poll.afterSend <:+ ending := by
  have within : ending <:+ poll.afterRead := by
    have whole : poll.read :: poll.afterRead <:+ past :=
      ⟨poll.start, poll.split.symm⟩
    rcases List.suffix_or_suffix_of_suffix ends whole with shorter | longer
    · rcases List.suffix_cons_iff.mp shorter with rfl | within
      · exact absurd ⟨poll.read, List.mem_cons_self, rfl, rfl⟩ none_
      · exact within
    · exact absurd ⟨poll.read, longer.subset List.mem_cons_self, rfl, rfl⟩ none_
  refine ⟨within, ?_⟩
  have split : poll.afterRead =
      poll.asked ++ ⟨thread, .send, ()⟩ :: poll.afterSend := rfl
  apply Process.suffix_of_marked split within some_
  intro event member marked
  rw [poll.own_afterSend member marked.1] at marked
  cases marked.2

/-- Where both the request and the answer came after, gluetun has reported the
port. -/
theorem reported {after : List Event}
    (ends : ⟨thread, .send, ()⟩ :: poll.afterSend <:+ after) {port : UInt16}
    (given : poll.answers.port = .ok port) : Reported after port := by
  obtain ⟨between, rfl⟩ := ends
  refine ⟨between, thread, poll.afterSend, poll.answers, rfl, ?_,
    forwardedPort_of_port given⟩
  exact List.mem_append_right _ List.mem_cons_self

end Poll

theorem poll_of_published {past : List Event} {thread : Nat} {base : Url}
    (published : Published (historyOf thread past) (.observe base)) :
    Nonempty (Poll past thread base) := by
  obtain ⟨earlier, observed, answers, history, resolved⟩ := published
  obtain ⟨before, rest, rfl, history, quietRest⟩ :=
    Process.split_of_historyOf history
  obtain ⟨before, waited, rfl, history, quietWaited⟩ :=
    Process.split_of_historyOf history
  obtain ⟨start, asked, rfl, _, quietAsked⟩ :=
    Process.split_of_historyOf history
  refine ⟨⟨start, observed, asked, waited, answers, rest, by simp, ?_,
    resolved⟩⟩
  intro event member
  rcases List.mem_append.mp member with member | member
  · rcases List.mem_append.mp member with member | member
    · exact quietAsked event member
    · exact quietWaited event member
  · exact quietRest event member

/-- No observation there is, and none that a poll has read, had a dead port
at the time. -/
structure Alive (moment : Moment) : Prop where
  entries : ∀ observed ∈ moment.world.endpoint.dynamic, ∀ port,
    observed.base.portOrKnownDefault = some port → ¬ Dead moment.past port
  reads : ∀ before thread observed after,
    moment.past = before ++ ⟨thread, .lastObserved, some observed⟩ :: after →
      ∀ port, observed.base.portOrKnownDefault = some port →
        ¬ Dead before port

theorem Poll.not_dead {past : List Event} {thread : Nat} {base : Url}
    (poll : Poll past thread base)
    (reads : ∀ before thread observed after,
      past = before ++ ⟨thread, .lastObserved, some observed⟩ :: after →
        ∀ port, observed.base.portOrKnownDefault = some port →
          ¬ Dead before port)
    (current : restsOn (afterLast forgets past) thread = true)
    {port : UInt16} (named : base.portOrKnownDefault = some port) :
    ¬ Dead past port := by
  intro dead
  obtain ⟨before, forgetting, after, split, isForget, learned, unreported⟩ :=
    dead
  have ends := Process.afterLast_suffix forgets past
  have recent : afterLast forgets past <:+ after := by
    rw [split]
    exact Process.afterLast_suffix_of_split isForget
  obtain ⟨other, named', origin⟩ := port_of_resolveBase poll.resolved
  cases named.symm.trans named'
  by_cases ownRead : ∃ event ∈ afterLast forgets past,
    event.thread = thread ∧ event.request = .lastObserved
  · have readLater := (poll.read_suffix ends ownRead).trans recent
    rcases origin with given | ⟨_, kept⟩
    · have sendLater : ⟨thread, .send, ()⟩ :: poll.afterSend <:+
          poll.read :: poll.afterRead :=
        ⟨poll.read :: poll.asked, rfl⟩
      exact unreported (poll.reported (sendLater.trans readLater) given)
    · -- the last observation was read after the forgetting
      obtain ⟨between, rfl⟩ := readLater
      obtain ⟨observed, same, keptPort⟩ := Option.bind_eq_some_iff.mp kept
      apply reads poll.start thread observed poll.afterRead
        (same ▸ poll.split) port (Url.portOrKnownDefault_of_port keptPort)
      refine ⟨before, forgetting, between, ?_, isForget, learned, ?_⟩
      · have whole : poll.start ++ poll.read :: poll.afterRead =
            before ++ forgetting :: between ++ poll.read :: poll.afterRead :=
          poll.split.symm.trans (split.trans (by simp))
        exact List.append_cancel_right whole
      · intro reported
        apply unreported
        exact reported.append [] _
  · obtain ⟨ownSend, event, member, own, isGiven⟩ :=
      ((restsOn_iff _ _).mp current).resolve_left ownRead
    obtain ⟨within, sendLater⟩ := poll.send_suffix ends ownRead ownSend
    have answered : event = poll.received := by
      rcases poll.own_afterRead (within.subset member) own with rfl | ⟨same, _⟩
      · cases isGiven
      · exact same
    rcases origin with given | ⟨ungiven, _⟩
    · exact unreported (poll.reported (sendLater.trans recent) given)
    · rw [answered] at isGiven
      rw [show givenPort poll.received = none from ungiven] at isGiven
      cases isGiven

theorem Alive.start (staticBase : Option Url) :
    Alive ⟨World.new staticBase, []⟩ where
  entries := by
    intro observed member
    cases member
  reads := by
    intro before thread observed after whole
    simp at whole

theorem dynamic_of_perform {event : Event} {before after : World}
    (performed : perform event.thread before event.request event.answer =
      some after)
    {observed : ObservedBase} (member : observed ∈ after.endpoint.dynamic) :
    forgets event = false ∧
      (observed ∈ before.endpoint.dynamic ∨
        event.request = .observe observed.base) := by
  obtain ⟨thread, request, answer⟩ := event
  cases request with
  | ready =>
    cases performed
    exact ⟨rfl, Or.inl member⟩
  | lastObserved =>
    rw [perform] at performed
    split at performed
    · cases performed
      exact ⟨rfl, Or.inl member⟩
    · cases performed
  | send =>
    cases performed
    exact ⟨rfl, Or.inl member⟩
  | receive =>
    cases performed
    exact ⟨rfl, Or.inl member⟩
  | observe base =>
    obtain ⟨now, changed⟩ := answer
    rw [perform] at performed
    split at performed
    · cases performed
      refine ⟨rfl, ?_⟩
      rcases AdvertisedEndpoint.mem_observe member with same | old
      · exact Or.inr (congrArg Call.observe same.symm)
      · exact Or.inl old
    · cases performed
  | forgetDynamic =>
    cases performed
    cases member
  | nudge =>
    cases performed
    exact ⟨rfl, Or.inl member⟩
  | setStatic base =>
    cases performed
    exact ⟨rfl, Or.inl member⟩
  | wait =>
    rw [perform] at performed
    split at performed
    · split at performed
      · cases performed
        exact ⟨rfl, Or.inl member⟩
      · cases performed
    · cases performed
      exact ⟨rfl, Or.inl member⟩

theorem mem_of_read {thread : Nat} {before after : World}
    {observed : ObservedBase}
    (performed : perform thread before .lastObserved (some observed) =
      some after) : observed ∈ before.endpoint.dynamic := by
  rw [perform] at performed
  split at performed
  case isTrue first => exact List.mem_of_mem_head? first.symm
  case isFalse => cases performed

/-- A step shows no dead port, where it publishes only what is current. -/
theorem Alive.step {past : List Event} {before after : World} {event : Event}
    (alive : Alive ⟨before, past⟩)
    (performed : perform event.thread before event.request event.answer =
      some after)
    (published : Published (historyOf event.thread past) event.request)
    (current : Current ⟨before, past⟩ event) :
    Alive ⟨after, past ++ [event]⟩ where
  entries := by
    intro observed member port named dead
    obtain ⟨kept, old | new⟩ := dynamic_of_perform performed member
    · exact alive.entries observed old port named (dead.of_append kept)
    · rw [new] at published
      obtain ⟨poll⟩ := poll_of_published published
      exact poll.not_dead alive.reads (current _ new) named
        (dead.of_append kept)
  reads := by
    intro earlier thread observed later whole port named
    rcases split_last whole with ⟨rfl, same⟩ | ⟨rest, _, split⟩
    · subst same
      exact alive.entries observed (mem_of_read performed) port named
    · exact alive.reads earlier thread observed rest split port named

/-- A base that is advertised and is not just the configured one. -/
def Advertised (endpoint : AdvertisedEndpoint) (base : Url) : Prop :=
  endpoint.current = some base ∧ endpoint.staticBase ≠ some base ∨
    base ∈ endpoint.dynamic.map (·.base)

theorem Advertised.observed {endpoint : AdvertisedEndpoint} {base : Url}
    (advertised : Advertised endpoint base) :
    ∃ observed ∈ endpoint.dynamic, observed.base = base := by
  rcases advertised with ⟨current, other⟩ | member
  · exact (AdvertisedEndpoint.observed_of_advertised
      (Or.inl current)).resolve_left other
  · exact List.mem_map.mp member

section Runs

variable {staticBase : Option Url} {jobs : Nat → Job} {events : List Event}
  {final : Process.Pool Nat World Call Answer Unit}

theorem Alive.of_run
    (run : Run perform Current (pool staticBase jobs) events final) :
    Alive ⟨final.world, events⟩ := by
  induction run with
  | start => exact .start staticBase
  | @step past pool thread request next answer after run waiting meets
      performed ih =>
      have along := run.along (fun _ _ _ _ _ _ => trivial)
        (program_publishes (jobs thread))
      rw [waiting] at along
      have now : perform thread pool.world request answer = some after :=
        performed
      exact @Alive.step past pool.world after ⟨thread, request, answer⟩ ih now
        along.1 meets

/-- In every run in which each poll publishes only what it read or asked for
since the last forgetting, a base whose port was learned before a forgetting is
advertised after it only once gluetun has reported that port again. -/
theorem dead_port_stays_dead
    (run : Run perform Current (pool staticBase jobs) events final) :
    ∀ before down after, events = before ++ down :: after →
      down.request = .forgetDynamic →
      ∀ base, Advertised final.world.endpoint base →
      ∀ port, base.portOrKnownDefault = some port →
        Learned before port → Reported after port := by
  intro before down after whole isForget base advertised port named learned
  obtain ⟨observed, member, rfl⟩ := advertised.observed
  by_contra unreported
  apply (Alive.of_run run).entries observed member port named
  exact ⟨before, down, after, whole, by simp [forgets, isForget], learned,
    unreported⟩

end Runs

def exit : Url := .ofSocket (.v4 0xCB007109#32) 51413

/-- A poll that finds the exit, at `now`. -/
def finds (observed : Option ObservedBase) (port : Except GluetunError UInt16)
    (now : Int) : List Event :=
  [⟨0, .ready, true⟩, ⟨0, .lastObserved, observed⟩, ⟨0, .send, ()⟩,
    ⟨0, .receive, ⟨.ok "203.0.113.9", port⟩⟩, ⟨0, .observe exit, (now, true)⟩]

/-- One poller, and one call that its port is gone. -/
def pollAndDown : Nat → Job
  | 0 => .poll 2
  | 1 => .down
  | _ => .idle

/-- Gluetun gives the port once more, in a poll that begins after. -/
def givenAgain : List Event :=
  finds none (.ok 51413) 100 ++ [⟨0, .wait, false⟩] ++
    ⟨1, .forgetDynamic, ()⟩ ::
      (⟨1, .nudge, ()⟩ :: finds none (.ok 51413) 160)

theorem given_again_reported :
    ∃ final, Run perform Current (pool none pollAndDown) givenAgain final ∧
      Advertised final.world.endpoint exit ∧
      Reported (⟨1, .nudge, ()⟩ :: finds none (.ok 51413) 160) 51413 := by
  have replayed : (Process.replay perform
      (fun moment event => match event.request with
        | .observe _ =>
          restsOn (afterLast forgets moment.past) event.thread
        | _ => true) [] (pool none pollAndDown) givenAgain).map
      (fun final => final.world.endpoint.dynamic.map (·.base)) =
        some [exit] := by
    decide +kernel
  have checked : ∀ (moment : Process.Moment Nat World Call Answer)
      (event : Event), (match event.request with
        | .observe _ => restsOn (afterLast forgets moment.past) event.thread
        | _ => true) = true → Current moment event := by
    intro moment event passes base same
    rw [same] at passes
    exact passes
  obtain ⟨final, run, shown⟩ := Run.exists_of_replay checked replayed
  have advertised : Advertised final.world.endpoint exit := by
    right
    rw [shown]
    exact List.mem_singleton.mpr rfl
  refine ⟨final, run, advertised, ?_⟩
  exact dead_port_stays_dead run _ _ _ rfl rfl exit advertised 51413 (by decide)
    ⟨⟨0, .observe exit, (100, true)⟩, by simp [finds], exit, rfl, by decide⟩

theorem Reported.given {past : List Event} {port : UInt16}
    (reported : Reported past port) (granted : port ≠ 0) :
    ∃ event ∈ past, givenPort event = some port := by
  obtain ⟨before, thread, after, answers, rfl, member, given⟩ := reported
  refine ⟨⟨thread, .receive, answers⟩, by simp [member], ?_⟩
  simp [givenPort, Answers.port, given, granted, bind, Except.bind,
    Except.toOption]

/-- The port gives out between the reading of the last observation and the
answers of gluetun, which does not know the port any more. -/
def afterDown : List Event :=
  [⟨1, .nudge, ()⟩, ⟨0, .send, ()⟩,
    ⟨0, .receive, ⟨.ok "203.0.113.9", .error .noForwardedPort⟩⟩,
    ⟨0, .observe exit, (160, true)⟩]

def beforeDown : List Event :=
  finds none (.ok 51413) 100 ++ [⟨0, .wait, false⟩, ⟨0, .ready, true⟩,
    ⟨0, .lastObserved, some ⟨exit, 100⟩⟩]

/-- The poll then publishes the port it had read, and the endpoint is what
gluetun said is gone. -/
theorem dead_port_revived :
    ∃ final, Run perform Process.Condition.always (pool none pollAndDown)
        (beforeDown ++ ⟨1, .forgetDynamic, ()⟩ :: afterDown) final ∧
      final.world.endpoint.current = some exit ∧
      exit.portOrKnownDefault = some 51413 ∧
      Learned beforeDown 51413 ∧ ¬ Reported afterDown 51413 := by
  have replayed : (Process.replay perform (fun _ _ => true) []
      (pool none pollAndDown)
      (beforeDown ++ ⟨1, .forgetDynamic, ()⟩ :: afterDown)).map
      (fun final => final.world.endpoint.current) = some (some exit) := by
    decide +kernel
  have checked : ∀ (moment : Process.Moment Nat World Call Answer)
      (event : Event), true = true → Process.Condition.always moment event :=
    fun _ _ _ => trivial
  obtain ⟨final, run, shown⟩ := Run.exists_of_replay checked replayed
  refine ⟨final, run, shown, by decide, ?_, ?_⟩
  · exact ⟨⟨0, .observe exit, (100, true)⟩, by simp [beforeDown, finds], exit,
      rfl, by decide⟩
  · intro reported
    obtain ⟨event, member, given⟩ := reported.given (by decide)
    have absent : ∀ event ∈ afterDown, givenPort event ≠ some 51413 := by
      decide
    exact absent event member given

end Gluetun

end Sharerr
