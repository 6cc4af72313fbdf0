import Sharerr.Accounts.Rules
import Sharerr.Process.Places

/-!
# The guesses of one password

A sign-in that waits for its code has five wrong codes.  A submission reads
the waiting entry, checks its code and only then counts a failure, so the
limit holds as long as no more submissions are under way than there are
failures left, and one submission is signed in as long as each finds the entry
it removes.
-/

namespace Sharerr

namespace Accounts

open Process (Prog)

/-- How far a code submission has come. -/
inductive Standing where
  | outside
  | entered
  | holding (secret : String)
  /-- The code is one of the secret's, its step not claimed yet. -/
  | matched
  /-- The code was wrong, which is not counted yet. -/
  | missed
  /-- There was no secret to check the code against. -/
  | unasked
  | passed
  | finished
  | counted (evaluated : Bool)
  | over
deriving DecidableEq, Repr

namespace Standing

section Advance

variable (hotp : (key : Bytes) → (counter : Nat) → Nat) (typed : String)

/-- How a request for a code gets on by one answered call. -/
def advance : Standing → ((request : Call) × Answer request) → Standing
  | .outside, ⟨.pendingUser _, (_, some _)⟩ => .entered
  | .entered, ⟨.openStore, .ok _⟩ => .entered
  | .entered, ⟨.selectTotpSecret _, .ok (some secret)⟩ => .holding secret
  | .entered, ⟨.selectTotpSecret _, .ok none⟩ => .unasked
  | .holding secret, ⟨.nowEpoch, now⟩ =>
    if (Totp.verify hotp secret typed now).isSome then .matched else .missed
  | .matched, ⟨.claimTotpStep _ _, .ok true⟩ => .passed
  | .matched, ⟨.claimTotpStep _ _, .ok false⟩ => .missed
  | .missed, ⟨.failSecondFactor _, _⟩ => .counted true
  | .unasked, ⟨.failSecondFactor _, _⟩ => .counted false
  | .passed, ⟨.finishSecondFactor _, _⟩ => .finished
  | .finished, ⟨.createSession _, _⟩ => .finished
  | _, _ => .over

end Advance

/-- A wrong code of this submission is still to be counted, if it is one. -/
def isOpen : Standing → Bool
  | entered | holding _ | matched | missed => true
  | _ => false

def isCounted : Standing → Bool
  | counted _ => true
  | _ => false

/-- A wrong code was evaluated against a secret. -/
def isWrong : Standing → Bool
  | missed | counted true => true
  | _ => false

/-- A wrong code was or may yet be evaluated. -/
def isCharged : Standing → Bool
  | counted evaluated => evaluated
  | standing => standing.isOpen

/-- What a submission for this entry asks next. -/
def asks (token : String) : Standing → Call → Prop
  | outside, .pendingUser other => other = token
  | entered, .openStore => True
  | entered, .selectTotpSecret _ => True
  | holding _, .nowEpoch => True
  | matched, .claimTotpStep _ _ => True
  | missed, .failSecondFactor other => other = token
  | unasked, .failSecondFactor other => other = token
  | passed, .finishSecondFactor other => other = token
  | finished, .createSession _ => True
  | _, _ => False

end Standing

def Job.typed : Job → String
  | .code _ typed => typed
  | _ => ""

/-- A submission with this pending cookie. -/
def Job.Submits (token : String) : Job → Prop
  | .code cookie _ => cookie = some token
  | .idle => True
  | _ => False

section Counts

variable (primitives : Primitives) (jobs : Nat → Job)

/-- How far each submission has come. -/
def submission (past : List Event) (thread : Nat) : Standing :=
  Process.place
    (fun thread => Standing.advance primitives.hotp (jobs thread).typed)
    .outside past thread

def submissions (kind : Standing → Bool) (past : List Event) : Finset Nat :=
  Process.standing
    (fun thread => Standing.advance primitives.hotp (jobs thread).typed)
    .outside kind past

/-- A submission is let in while there are more failures left than submissions
under way, and removes the entry it was let in for. -/
structure Rationed (token : String) (moment : Moment) (event : Event) :
    Prop where
  enters : ∀ now username entry,
    event = ⟨event.thread, .pendingUser token, (now, some username)⟩ →
      moment.world.pending token = some entry →
        entry.failures +
            (submissions primitives jobs Standing.isOpen moment.past).card <
          pendingFailures
  finishes : event = ⟨event.thread, .finishSecondFactor token, ()⟩ →
    (moment.world.pending token).isSome

/-- What the entry and the submissions for it have come to. -/
structure Budgeted (token : String) (world : World) (past : List Event) :
    Prop where
  failures : ∀ entry, world.pending token = some entry →
    entry.failures = (submissions primitives jobs
      Standing.isCounted past).card
  charged : (submissions primitives jobs Standing.isCharged past).card ≤
    pendingFailures
  unfinished : (world.pending token).isSome →
    ∀ thread, submission primitives jobs past thread ≠ .finished
  once : ∀ one other, submission primitives jobs past one = .finished →
    submission primitives jobs past other = .finished → one = other

end Counts

variable {primitives : Primitives} {jobs : Nat → Job} {token : String}
variable {thread : Nat} {world after : World} {request : Call}
variable {answer : Answer request} {past : List Event}

theorem codeSubmit_along (typed : String) :
    (codeSubmit primitives (some token) typed).Along (fun _ _ => True)
      (fun seen request =>
        (seen.foldl (Standing.advance primitives.hotp typed) .outside).asks
          token request)
      (fun _ _ => True) [] := by
  refine ⟨rfl, fun answer _ => ?_⟩
  obtain ⟨now, username⟩ := answer
  cases username with
  | none => trivial
  | some username =>
    refine ⟨trivial, fun opened _ => ?_⟩
    cases opened with
    | error reason => trivial
    | ok _ =>
      refine ⟨trivial, fun secret _ => ?_⟩
      rcases secret with reason | secret
      · trivial
      cases secret with
      | none =>
        refine ⟨rfl, fun left _ => ?_⟩
        cases left <;> trivial
      | some secret =>
        refine ⟨trivial, fun now _ => ?_⟩
        cases verified : Totp.verify primitives.hotp secret typed now with
        | none =>
          simp only [verified]
          refine ⟨?_, fun left _ => ?_⟩
          · simp [Standing.advance, verified, Standing.asks]
          · cases left <;> trivial
        | some step =>
          simp only [verified]
          refine ⟨?_, fun claimed _ => ?_⟩
          · simp [Standing.advance, verified, Standing.asks]
          rcases claimed with reason | claimed
          · trivial
          cases claimed with
          | false =>
            refine ⟨?_, fun left _ => ?_⟩
            · simp [Standing.advance, verified, Standing.asks]
            · cases left <;> trivial
          | true =>
            refine ⟨?_, fun _ _ => ⟨?_, fun answer _ => ?_⟩⟩
            · simp [Standing.advance, verified, Standing.asks]
            · simp [Standing.advance, verified, Standing.asks]
            · obtain ⟨now, drawn⟩ := answer
              cases drawn <;> trivial

theorem submission_append (event : Event) :
    submission primitives jobs (past ++ [event]) thread =
      if event.thread = thread then
        (submission primitives jobs past thread).advance primitives.hotp
          (jobs thread).typed ⟨event.request, event.answer⟩
      else submission primitives jobs past thread :=
  Process.place_append

theorem card_submissions_append (kind : Standing → Bool) (event : Event)
    {standing next : Standing} (outside : kind .outside = false)
    (here : submission primitives jobs past event.thread = standing)
    (there : submission primitives jobs (past ++ [event]) event.thread =
      next) :
    (submissions primitives jobs kind (past ++ [event])).card +
        (kind standing).toNat =
      (submissions primitives jobs kind past).card + (kind next).toNat := by
  rw [submission_append, if_pos rfl] at there
  rw [← here, ← there]
  exact Process.card_standing_append outside

theorem finished_of_append {event : Event} {other : Nat}
    (finished : submission primitives jobs (past ++ [event]) other = .finished)
    (kept : submission primitives jobs (past ++ [event]) event.thread =
        .finished →
      submission primitives jobs past event.thread = .finished) :
    submission primitives jobs past other = .finished := by
  by_cases own : event.thread = other
  · subst own
    exact kept finished
  · rwa [submission_append, if_neg own] at finished

variable {standing : Standing}

/-- An event that counts a failure where the entry does, charges no more than
there is room for, and finishes nothing. -/
theorem Budgeted.advance (holds : Budgeted primitives jobs token world past)
    (here : submission primitives jobs past thread = standing)
    {next : Standing} (leads : standing.advance primitives.hotp
      (jobs thread).typed ⟨request, answer⟩ = next)
    (failures : ∀ entry, after.pending token = some entry →
      ∃ before, world.pending token = some before ∧
        entry.failures + standing.isCounted.toNat =
          before.failures + next.isCounted.toNat)
    (room : (submissions primitives jobs Standing.isCharged past).card +
        next.isCharged.toNat ≤ pendingFailures + standing.isCharged.toNat)
    (finishes : next = .finished → standing = .finished) :
    Budgeted primitives jobs token after
      (past ++ [⟨thread, request, answer⟩]) := by
  have there : submission primitives jobs
      (past ++ [⟨thread, request, answer⟩]) thread = next := by
    rw [submission_append, if_pos rfl, here]
    exact leads
  have counted := card_submissions_append Standing.isCounted
    ⟨thread, request, answer⟩ rfl here there
  have charged := card_submissions_append Standing.isCharged
    ⟨thread, request, answer⟩ rfl here there
  have kept : submission primitives jobs
      (past ++ [⟨thread, request, answer⟩]) thread = .finished →
        submission primitives jobs past thread = .finished := by
    rw [here, there]
    exact finishes
  constructor
  · intro entry waiting
    obtain ⟨before, found, more⟩ := failures entry waiting
    have known := holds.failures before found
    omega
  · omega
  · intro waits other finished
    obtain ⟨entry, waiting⟩ := Option.isSome_iff_exists.mp waits
    obtain ⟨before, found, -⟩ := failures entry waiting
    exact holds.unfinished (by rw [found]; rfl) other
      (finished_of_append finished kept)
  · intro one other first second
    exact holds.once one other (finished_of_append first kept)
      (finished_of_append second kept)

theorem Budgeted.quiet (holds : Budgeted primitives jobs token world past)
    (here : submission primitives jobs past thread = standing)
    (performed : perform primitives thread world request answer = some after)
    (leaves : request.LeavesPending) (next : Standing)
    (leads : standing.advance primitives.hotp (jobs thread).typed
      ⟨request, answer⟩ = next)
    (counts : standing.isCounted = next.isCounted)
    (charges : next.isCharged = true → standing.isCharged = true)
    (finishes : next = .finished → standing = .finished) :
    Budgeted primitives jobs token after
      (past ++ [⟨thread, request, answer⟩]) := by
  refine holds.advance here leads ?_ ?_ finishes
  · intro entry waiting
    rw [pending_of_other performed leaves] at waiting
    exact ⟨entry, waiting, by rw [counts]⟩
  · have bound := holds.charged
    cases risky : next.isCharged with
    | false => exact bound.trans (Nat.le_add_right _ _)
    | true =>
      rw [charges risky]
      omega

theorem Budgeted.enter {now : Nat} {username : String}
    (holds : Budgeted primitives jobs token world past)
    (here : submission primitives jobs past thread = .outside)
    (meets : Rationed primitives jobs token ⟨world, past⟩
      ⟨thread, .pendingUser token, (now, some username)⟩)
    (performed : perform primitives thread world (.pendingUser token)
      (now, some username) = some after) :
    Budgeted primitives jobs token after
      (past ++ [⟨thread, .pendingUser token, (now, some username)⟩]) := by
  have same := effect_of_performed performed
  simp only [effect] at same
  subst same
  obtain ⟨entry, waiting⟩ : ∃ entry, after.pending token = some entry := by
    simp only [perform] at performed
    split at performed
    · rename_i found
      obtain ⟨entry, kept, -⟩ := Option.map_eq_some_iff.mp found.symm
      exact ⟨entry, (Option.filter_eq_some_iff.mp kept).1⟩
    · cases performed
  have room := meets.enters now username entry rfl waiting
  rw [holds.failures entry waiting] at room
  dsimp only at room
  have covered : (submissions primitives jobs Standing.isCharged past).card ≤
      (submissions primitives jobs Standing.isCounted past).card +
        (submissions primitives jobs Standing.isOpen past).card := by
    apply Process.card_standing_le rfl rfl rfl
    intro standing charged
    cases standing with
    | counted => exact .inl rfl
    | _ => exact .inr charged
  exact holds.advance here rfl (fun entry waiting => ⟨entry, waiting, rfl⟩)
    (covered.trans_lt room) fun finished => by cases finished

theorem failures_of_fail {left : Bool}
    (performed : perform primitives thread world (.failSecondFactor token)
      left = some after)
    {entry : Pending} (waiting : after.pending token = some entry) :
    ∃ before, world.pending token = some before ∧
      entry.failures = before.failures + 1 := by
  rw [effect_of_performed performed] at waiting
  simp only [effect, World.failSecondFactor] at waiting
  split at waiting
  · rename_i absent
    rw [absent] at waiting
    cases waiting
  · rename_i before found
    split at waiting
    · simp at waiting
    · simp only [Function.update_self, Option.some.injEq] at waiting
      subst waiting
      exact ⟨before, found, rfl⟩

theorem Budgeted.fail (holds : Budgeted primitives jobs token world past)
    {left : Bool} (evaluated : Bool)
    (here : submission primitives jobs past thread =
      if evaluated then .missed else .unasked)
    (performed : perform primitives thread world (.failSecondFactor token)
      left = some after) :
    Budgeted primitives jobs token after
      (past ++ [⟨thread, .failSecondFactor token, left⟩]) := by
  have bound := holds.charged
  cases evaluated with
  | false =>
    exact holds.advance here rfl (fun _ => failures_of_fail performed) bound
      nofun
  | true =>
    exact holds.advance here rfl (fun _ => failures_of_fail performed)
      (Nat.add_le_add_right bound 1) nofun

theorem Budgeted.finish (holds : Budgeted primitives jobs token world past)
    (here : submission primitives jobs past thread = .passed)
    (meets : Rationed primitives jobs token ⟨world, past⟩
      ⟨thread, .finishSecondFactor token, ()⟩)
    (performed : perform primitives thread world (.finishSecondFactor token)
      () = some after) :
    Budgeted primitives jobs token after
      (past ++ [⟨thread, .finishSecondFactor token, ()⟩]) := by
  have there : submission primitives jobs
      (past ++ [⟨thread, .finishSecondFactor token, ()⟩]) thread =
        .finished := by
    rw [submission_append, if_pos rfl, here]
    rfl
  have charged := card_submissions_append Standing.isCharged
    ⟨thread, .finishSecondFactor token, ()⟩ rfl here there
  have gone : after.pending token = none := by
    rw [effect_of_performed performed]
    simp [effect, World.finishSecondFactor]
  have first : ∀ other, submission primitives jobs
      (past ++ [⟨thread, .finishSecondFactor token, ()⟩]) other = .finished →
        other = thread := by
    intro other finished
    by_contra different
    rw [submission_append, if_neg (Ne.symm different)] at finished
    exact holds.unfinished (meets.finishes rfl) other finished
  constructor
  · intro entry waiting
    rw [gone] at waiting
    cases waiting
  · have bound := holds.charged
    simp only [Standing.isCharged, Standing.isOpen, Bool.toNat_false] at charged
    omega
  · intro waits
    rw [gone] at waits
    cases waits
  · intro one other here there
    rw [first one here, first other there]

theorem Budgeted.step (holds : Budgeted primitives jobs token world past)
    (asks : (submission primitives jobs past thread).asks token request)
    (meets : Rationed primitives jobs token ⟨world, past⟩
      ⟨thread, request, answer⟩)
    (performed : perform primitives thread world request answer =
      some after) :
    Budgeted primitives jobs token after
      (past ++ [⟨thread, request, answer⟩]) := by
  cases here : submission primitives jobs past thread with
  | outside =>
    rw [here] at asks
    cases request with
    | pendingUser other =>
      obtain rfl : other = token := asks
      obtain ⟨now, username⟩ := answer
      cases username with
      | none =>
        exact holds.quiet here performed trivial .over rfl rfl nofun nofun
      | some username => exact holds.enter here meets performed
    | _ => exact asks.elim
  | entered =>
    rw [here] at asks
    cases request with
    | openStore =>
      cases answer with
      | error reason =>
        exact holds.quiet here performed trivial .over rfl rfl nofun nofun
      | ok _ =>
        exact holds.quiet here performed trivial .entered rfl rfl
          (fun _ => rfl) nofun
    | selectTotpSecret username =>
      rcases answer with reason | secret
      · exact holds.quiet here performed trivial .over rfl rfl nofun nofun
      · cases secret with
        | none =>
          exact holds.quiet here performed trivial .unasked rfl rfl nofun
            nofun
        | some secret =>
          exact holds.quiet here performed trivial (.holding secret) rfl
            rfl (fun _ => rfl) nofun
    | _ => exact asks.elim
  | holding secret =>
    rw [here] at asks
    cases request with
    | nowEpoch =>
      cases verified : (Totp.verify primitives.hotp secret
          (jobs thread).typed answer).isSome with
      | true =>
        exact holds.quiet here performed trivial .matched
          (if_pos verified) rfl (fun _ => rfl) nofun
      | false =>
        exact holds.quiet here performed trivial .missed
          (if_neg (by rw [verified]; exact Bool.false_ne_true)) rfl
          (fun _ => rfl) nofun
    | _ => exact asks.elim
  | matched =>
    rw [here] at asks
    cases request with
    | claimTotpStep username step =>
      rcases answer with reason | claimed
      · exact holds.quiet here performed trivial .over rfl rfl nofun nofun
      · cases claimed with
        | true =>
          exact holds.quiet here performed trivial .passed rfl rfl nofun
            nofun
        | false =>
          exact holds.quiet here performed trivial .missed rfl rfl
            (fun _ => rfl) nofun
    | _ => exact asks.elim
  | missed =>
    rw [here] at asks
    cases request with
    | failSecondFactor other =>
      obtain rfl : other = token := asks
      exact holds.fail true here performed
    | _ => exact asks.elim
  | unasked =>
    rw [here] at asks
    cases request with
    | failSecondFactor other =>
      obtain rfl : other = token := asks
      exact holds.fail false here performed
    | _ => exact asks.elim
  | passed =>
    rw [here] at asks
    cases request with
    | finishSecondFactor other =>
      obtain rfl : other = token := asks
      exact holds.finish here meets performed
    | _ => exact asks.elim
  | finished =>
    rw [here] at asks
    cases request with
    | createSession username =>
      exact holds.quiet here performed trivial .finished rfl rfl
        (fun charged => charged) fun _ => rfl
    | _ => exact asks.elim
  | counted evaluated =>
    rw [here] at asks
    cases request <;> exact asks.elim
  | «over» =>
    rw [here] at asks
    cases request <;> exact asks.elim

variable {start reached : Process.Pool Nat World Call Answer Response}
variable {trace : List Event}

theorem asks_of_run (submits : ∀ thread, (jobs thread).Submits token)
    {condition : Process.Condition Nat World Call Answer}
    (run : Process.Run (perform primitives) condition
      (pool primitives world jobs) trace reached)
    {next : Answer request → Program Response}
    (waiting : reached.threads thread = .call request next) :
    (submission primitives jobs trace thread).asks token request := by
  have along : (((jobs thread).program primitives).Along (fun _ _ => True)
      (fun seen request =>
        (seen.foldl (Standing.advance primitives.hotp (jobs thread).typed)
          .outside).asks token request) (fun _ _ => True) []) := by
    have own := submits thread
    cases mine : jobs thread with
    | code cookie typed =>
      rw [mine] at own
      obtain rfl : cookie = some token := own
      exact codeSubmit_along typed
    | idle => trivial
    | _ =>
      rw [mine] at own
      exact own.elim
  have here := run.along (fun _ _ _ _ _ _ => trivial) along
  rw [waiting] at here
  exact here.1

theorem Budgeted.of_run (submits : ∀ thread, (jobs thread).Submits token)
    (fresh : ∀ entry, world.pending token = some entry → entry.failures = 0)
    (run : Process.Run (perform primitives) (Rationed primitives jobs token)
      (pool primitives world jobs) trace reached) :
    Budgeted primitives jobs token reached.world trace := by
  induction run with
  | start =>
    refine ⟨fresh, Nat.zero_le _, ?_, ?_⟩
    · intro _ thread
      exact nofun
    · intro one other
      exact nofun
  | step run waiting meets performed ih =>
    exact ih.step (asks_of_run submits run waiting) meets performed

theorem finished_of_created (submits : ∀ thread, (jobs thread).Submits token)
    {condition : Process.Condition Nat World Call Answer}
    (run : Process.Run (perform primitives) condition
      (pool primitives world jobs) trace reached)
    {username : String} {answer : Nat × Except String String}
    (created : (⟨thread, .createSession username, answer⟩ : Event) ∈ trace) :
    submission primitives jobs trace thread = .finished := by
  induction run with
  | start => cases created
  | @step past pool caller request next given _ run waiting _ _ ih =>
    have asks := asks_of_run submits run waiting
    rw [submission_append]
    dsimp only
    by_cases own : caller = thread
    · subst own
      rw [if_pos rfl]
      have here : submission primitives jobs past caller = .finished := by
        rcases List.mem_append.mp created with known | now
        · exact ih known
        · cases List.mem_singleton.mp now
          cases here : submission primitives jobs past caller with
          | finished => rfl
          | _ =>
            rw [here] at asks
            exact asks.elim
      rw [here] at asks ⊢
      cases request with
      | createSession => rfl
      | _ => exact asks.elim
    · rw [if_neg own]
      rcases List.mem_append.mp created with known | now
      · exact ih known
      · cases List.mem_singleton.mp now
        exact absurd rfl own

/-- In every run of code submissions for one waiting sign-in that reads its
entry only while there is room, and removes it only once, at most
`pendingFailures` wrong codes are evaluated and at most one submission creates a
session. -/
theorem guesses_rationed (submits : ∀ thread, (jobs thread).Submits token)
    (world : World)
    (fresh : ∀ entry, world.pending token = some entry → entry.failures = 0)
    (run : Process.Run (perform primitives) (Rationed primitives jobs token)
      (pool primitives world jobs) trace reached) :
    (∀ threads : Finset Nat,
      (∀ thread ∈ threads,
        (submission primitives jobs trace thread).isWrong = true) →
          threads.card ≤ pendingFailures) ∧
      ∀ one other username name answer given,
        (⟨one, .createSession username, answer⟩ : Event) ∈ trace →
          (⟨other, .createSession name, given⟩ : Event) ∈ trace →
            one = other := by
  have budgeted := Budgeted.of_run submits fresh run
  constructor
  · intro threads wrong
    refine le_trans (Finset.card_le_card ?_) budgeted.charged
    intro thread member
    apply (Process.mem_standing rfl).mpr
    have evaluated := wrong thread member
    change Standing.isCharged (submission primitives jobs trace thread) = true
    cases here : submission primitives jobs trace thread with
    | missed => rfl
    | counted asked =>
      rw [here] at evaluated
      cases asked with
      | true => rfl
      | false => cases evaluated
    | _ =>
      rw [here] at evaluated
      cases evaluated
  · intro one other username name answer given first second
    exact budgeted.once one other (finished_of_created submits run first)
      (finished_of_created submits run second)

/-- Sam's password was right; his code is still to come. -/
def samWaits : World :=
  { claimedBySam (some knownSecret) with
    pending := fun token =>
      if token = "parked" then some ⟨"sam", 0, 0⟩ else none }

theorem samWaits_fresh (entry : Pending)
    (waiting : samWaits.pending "parked" = some entry) :
    entry.failures = 0 := by
  cases waiting
  rfl

/-- Submissions of these codes. -/
def submitting (codes : List String) (thread : Nat) : Job :=
  match codes[thread]? with
  | some typed => .code (some "parked") typed
  | none => .idle

theorem submitting_submits (codes : List String) (thread : Nat) :
    (submitting codes thread).Submits "parked" := by
  rw [submitting]
  cases codes[thread]? with
  | none => trivial
  | some typed => exact rfl

def wrongThenRight : List Event :=
  startsCode 0 30 ++ [⟨0, .failSecondFactor "parked", true⟩] ++
    startsCode 1 30 ++ [⟨1, .claimTotpStep "sam" 1, .ok true⟩] ++
    endsCode 1 "second"

/-- Six requests are let in before the first failure is counted. -/
def sixGuesses : List Event :=
  (List.range 6).map (fun thread =>
      ⟨thread, .pendingUser "parked", (0, some "sam")⟩) ++
    (List.range 6).flatMap fun thread => (startsCode thread 30).tail

/-- Two codes of different steps are claimed before the entry is removed. -/
def twoRight : List Event :=
  startsCode 0 30 ++ startsCode 1 60 ++
    [⟨0, .claimTotpStep "sam" 1, .ok true⟩,
      ⟨1, .claimTotpStep "sam" 2, .ok true⟩] ++
    endsCode 0 "first" ++ endsCode 1 "second"

def rationed (primitives : Primitives) (jobs : Nat → Job) (token : String)
    (moment : Moment) : Event → Bool
  | ⟨_, .pendingUser other, (_, some _)⟩ =>
    other ≠ token || (moment.world.pending token).all fun entry =>
      entry.failures +
          (submissions primitives jobs Standing.isOpen moment.past).card <
        pendingFailures
  | ⟨_, .finishSecondFactor other, _⟩ =>
    other ≠ token || (moment.world.pending token).isSome
  | _ => true

theorem rationed_of_check {moment : Moment} {event : Event}
    (checked : rationed primitives jobs token moment event = true) :
    Rationed primitives jobs token moment event := by
  constructor
  · intro now username entry same waiting
    rw [same] at checked
    simpa [rationed, waiting] using checked
  · intro same
    rw [same] at checked
    simpa [rationed] using checked

/-- A wrong code and then the right one. -/
theorem wrong_then_right_rationed :
    ∃ reached, Process.Run (perform plainPrimitives)
        (Rationed plainPrimitives (submitting ["000000", "287082"]) "parked")
        (pool plainPrimitives samWaits (submitting ["000000", "287082"]))
        wrongThenRight reached ∧
      (submission plainPrimitives (submitting ["000000", "287082"])
          wrongThenRight 0).isWrong = true ∧
        ∀ other name given,
          (⟨other, .createSession name, given⟩ : Event) ∈ wrongThenRight →
            1 = other := by
  have replayed : (Process.replay (perform plainPrimitives)
      (rationed plainPrimitives (submitting ["000000", "287082"]) "parked") []
      (pool plainPrimitives samWaits (submitting ["000000", "287082"]))
        wrongThenRight).map (fun reached => (reached.threads 1).result?) =
      some (some (.signedIn "second" "/")) := by
    decide +kernel
  obtain ⟨reached, run, -⟩ :=
    Process.Run.exists_of_replay (fun _ _ => rationed_of_check) replayed
  have once := (guesses_rationed (submitting_submits _) samWaits
    samWaits_fresh run).2
  refine ⟨reached, run, by decide +kernel, fun other name given created => ?_⟩
  exact once 1 other "sam" name (0, .ok "second") given
    (List.mem_append_right _ (by simp [endsCode])) created

/-- Six wrong codes are evaluated for one password, and two codes of another
become two sessions. -/
theorem parallel_guesses :
    (∃ reached, Process.Run (perform plainPrimitives) .always
        (pool plainPrimitives samWaits
          (submitting (List.replicate 6 "000000"))) sixGuesses reached ∧
      (∀ thread ∈ Finset.range 6,
        (submission plainPrimitives (submitting (List.replicate 6 "000000"))
          sixGuesses thread).isWrong = true) ∧
        ¬ (Finset.range 6).card ≤ pendingFailures) ∧
      ∃ reached, Process.Run (perform plainPrimitives) .always
          (pool plainPrimitives samWaits (submitting ["287082", "359152"]))
          twoRight reached ∧
        (⟨0, .createSession "sam", (0, .ok "first")⟩ : Event) ∈ twoRight ∧
          (⟨1, .createSession "sam", (0, .ok "second")⟩ : Event) ∈
            twoRight := by
  constructor
  · have replayed : (Process.replay (perform plainPrimitives)
        (fun _ _ => true) [] (pool plainPrimitives samWaits
          (submitting (List.replicate 6 "000000"))) sixGuesses).map
            (fun reached => reached.world.drawn) =
        some ["cookie"] := by
      decide +kernel
    obtain ⟨reached, run, -⟩ :=
      Process.Run.exists_of_replay (fun _ _ _ => trivial) replayed
    exact ⟨reached, run, by decide +kernel, by decide⟩
  · have replayed : (Process.replay (perform plainPrimitives)
        (fun _ _ => true) [] (pool plainPrimitives samWaits
          (submitting ["287082", "359152"])) twoRight).map
            (fun reached => reached.world.drawn) =
        some ["second", "first", "cookie"] := by
      decide +kernel
    obtain ⟨reached, run, -⟩ :=
      Process.Run.exists_of_replay (fun _ _ _ => trivial) replayed
    exact ⟨reached, run, by simp [twoRight, endsCode],
      by simp [twoRight, endsCode]⟩

end Accounts

end Sharerr
