import Sharerr.Accounts.Rules

/-!
# A code is spent once

The store keeps the last step accepted for an account and refuses every step
that is not later.  Enabling writes the secret and starts that guard over
before it spends its own step, and does not look at whether the step was still
to be had.  A code is accepted at most once as long as nothing is claimed in
between.
-/

namespace Sharerr

namespace Accounts

open Process (Prog Performed Safe)

def Job.isEnable : Job → Bool
  | .enable _ _ => true
  | _ => false

/-- The key of an account that has a second factor: secrets that differ in
case, spaces or padding alone are one key. -/
def World.key (world : World) (username : String) : Option Bytes :=
  (world.secret username).bind Totp.base32Decode

/-- The key a request checks its code against: enabling brings its own, the
others read the one of the account. -/
def Checks (jobs : Nat → Job) (thread : Nat) (username : String) (key : Bytes)
    (past : List Event) : Prop :=
  match jobs thread with
  | .enable _ form => Totp.base32Decode form.secret = some key
  | _ => ∃ secret,
      (⟨thread, .selectTotpSecret username, .ok (some secret)⟩ : Event) ∈
          past ∧
        Totp.base32Decode secret = some key

/-- Whether a request goes on after its claim: enabling does in any case. -/
def goesOn (jobs : Nat → Job) (thread : Nat) (claimed : Bool) : Bool :=
  claimed || (jobs thread).isEnable

/-- The request has accepted a code of this step under this key. -/
def Accepted (jobs : Nat → Job) (thread : Nat) (username : String)
    (key : Bytes) (step : Int) (past : List Event) : Prop :=
  ∃ earlier claimed later,
    past = earlier ++ ⟨thread, .claimTotpStep username step, .ok claimed⟩ ::
        later ∧
      goesOn jobs thread claimed = true ∧
        Checks jobs thread username key earlier

def stores (username : String) : Event → Bool
  | ⟨_, .setTotpSecret name _, .ok true⟩ => name = username
  | _ => false

/-- The request that last changed the secret of the account. -/
def changer (username : String) (past : List Event) : Option Nat :=
  (past.filter (stores username)).getLast?.map (·.thread)

def claims (thread : Nat) (username : String) : Event → Bool
  | ⟨other, .claimTotpStep name _, .ok _⟩ => other = thread && name = username
  | _ => false

/-- Every enabling has spent its own step before another request changes the
secret or claims a step, every other code is claimed while the key it was
checked against is still the account's, and a key that comes back is confirmed
by a later step than any accepted with it. -/
structure InTurn (primitives : Primitives) (jobs : Nat → Job)
    (moment : Moment) (event : Event) : Prop where
  /-- The step that confirms a secret. -/
  renewed : ∀ cookie form username key now step,
    jobs event.thread = .enable cookie form →
      event = ⟨event.thread, .setTotpSecret username (some form.secret),
          .ok true⟩ →
        Totp.base32Decode form.secret = some key →
          (⟨event.thread, .nowEpoch, now⟩ : Event) ∈ moment.past →
            Totp.verify primitives.hotp form.secret form.code now =
                some step →
              ∀ thread earlier,
                Accepted jobs thread username key earlier moment.past →
                  earlier < step
  /-- The claim of an enabling. -/
  own : ∀ username step claimed, (jobs event.thread).isEnable = true →
    event = ⟨event.thread, .claimTotpStep username step, .ok claimed⟩ →
      changer username moment.past = some event.thread
  /-- The claim of a sign-in or a disabling. -/
  current : ∀ username key step, (jobs event.thread).isEnable = false →
    event = ⟨event.thread, .claimTotpStep username step, .ok true⟩ →
      Checks jobs event.thread username key moment.past →
        moment.world.key username = some key
  settled : ∀ username step, (jobs event.thread).isEnable = false →
    event = ⟨event.thread, .claimTotpStep username step, .ok true⟩ →
      ∀ thread, changer username moment.past = some thread →
        (jobs thread).isEnable = true →
          moment.past.any (claims thread username) = true

variable {primitives : Primitives} {jobs : Nat → Job} {thread : Nat}
variable {before after : Moment} {request : Call} {answer : Answer request}
variable {username : String} {key : Bytes} {step : Int} {past : List Event}

theorem SameFactor.sameKey {world after : World}
    (same : SameFactor world after username) :
    after.key username = world.key username := by
  rw [World.key, World.key, same.secret]

theorem decodes_of_verify {hotp : Bytes → Nat → Nat} {secret code : String}
    {now : Int} (verified : Totp.verify hotp secret code now = some step) :
    ∃ key, Totp.base32Decode secret = some key := by
  simp only [Totp.verify] at verified
  split at verified
  · cases verified
  · obtain ⟨key, decodes, -⟩ := Option.bind_eq_some_iff.mp verified
    exact ⟨key, decodes⟩

/-- A code was accepted before, or just now. -/
theorem Accepted.of_append {event : Event}
    (accepted : Accepted jobs thread username key step (past ++ [event])) :
    Accepted jobs thread username key step past ∨
      ∃ claimed, event =
          ⟨thread, .claimTotpStep username step, .ok claimed⟩ ∧
        goesOn jobs thread claimed = true ∧
          Checks jobs thread username key past := by
  obtain ⟨earlier, claimed, later, whole, goes, checked⟩ := accepted
  rcases Process.split_last whole with ⟨rfl, rfl⟩ | ⟨rest, -, rfl⟩
  · exact .inr ⟨claimed, rfl, goes, checked⟩
  · exact .inl ⟨earlier, claimed, rest, rfl, goes, checked⟩

theorem changer_append (event : Event) :
    changer username (past ++ [event]) =
      if stores username event then some event.thread
      else changer username past := by
  by_cases stored : stores username event = true
  · simp [changer, List.filter_append, stored]
  · simp [changer, List.filter_append, stored]

/-- The account's secret was last changed by an enabling whose own step is
still to be claimed. -/
def Awaits (jobs : Nat → Job) (username : String) (past : List Event) :
    Prop :=
  ∃ thread, changer username past = some thread ∧
    (jobs thread).isEnable = true ∧
      past.any (claims thread username) = false

/-- What was accepted under the key of an account is not later than its
guard. -/
structure Guarded (jobs : Nat → Job) (moment : Moment) : Prop where
  spent : ∀ username key, moment.world.key username = some key →
    ¬ Awaits jobs username moment.past →
      ∀ thread step,
        Accepted jobs thread username key step moment.past →
          ∃ last, moment.world.lastStep username = some last ∧ step ≤ last
  once : ∀ one other username key step,
    Accepted jobs one username key step moment.past →
      Accepted jobs other username key step moment.past → one = other

def spending (primitives : Primitives) (jobs : Nat → Job) :
    Process.Protocol Nat World Call Answer where
  perform := perform primitives
  condition := InTurn primitives jobs
  invariant := Guarded jobs
  guarantee _ _ _ := True

theorem perform_of_spending
    (performed : Performed (spending primitives jobs) thread before request
      answer after) :
    perform primitives thread before.world request answer =
      some after.world :=
  performed.performed

/-- A call that neither stores a secret nor claims a step. -/
def Call.IsAside : Call → Prop
  | .setTotpSecret _ _ | .claimTotpStep _ _ => False
  | _ => True

theorem stores_of_aside (aside : request.IsAside) :
    stores username ⟨thread, request, answer⟩ = false := by
  cases request with
  | setTotpSecret | claimTotpStep => exact aside.elim
  | _ => rfl

theorem sameFactor_of_aside
    (performed : perform primitives thread before.world request answer =
      some after.world)
    (aside : request.IsAside) :
    SameFactor before.world after.world username := by
  apply factor_of_performed performed
  · rintro secret rfl
    exact aside.elim
  · rintro step rfl
    exact aside.elim

/-- An event that accepts nothing and stores nothing. -/
structure Silent (jobs : Nat → Job) (before after : Moment)
    (event : Event) : Prop where
  past : after.past = before.past ++ [event]
  factor : ∀ username, SameFactor before.world after.world username
  accepts : ∀ username step claimed, event =
      ⟨event.thread, .claimTotpStep username step, .ok claimed⟩ →
    goesOn jobs event.thread claimed = false
  stores : ∀ username, stores username event = false

namespace Silent

variable {event : Event}

theorem accepted (silent : Silent jobs before after event) {other : Nat}
    (accepted : Accepted jobs other username key step after.past) :
    Accepted jobs other username key step before.past := by
  rw [silent.past] at accepted
  rcases accepted.of_append with known | ⟨claimed, same, goes, -⟩
  · exact known
  · subst same
    rw [silent.accepts username step claimed rfl] at goes
    cases goes

theorem changer (silent : Silent jobs before after event) :
    changer username after.past = changer username before.past := by
  rw [silent.past, changer_append, silent.stores]
  rfl

theorem awaits (silent : Silent jobs before after event)
    (awaits : Awaits jobs username before.past) :
    Awaits jobs username after.past := by
  obtain ⟨other, last, enables, unclaimed⟩ := awaits
  refine ⟨other, silent.changer.trans last, enables, ?_⟩
  rw [silent.past, List.any_append, unclaimed, Bool.false_or,
    List.any_cons, List.any_nil, Bool.or_false]
  by_contra claimed
  obtain ⟨thread, request, answer⟩ := event
  cases request with
  | claimTotpStep name step =>
    cases answer with
    | error reason => exact claimed rfl
    | ok won =>
      have goes := silent.accepts name step won rfl
      simp only [claims, Bool.not_eq_false, Bool.and_eq_true,
        decide_eq_true_eq] at claimed
      rw [goesOn, claimed.1, enables, Bool.or_true] at goes
      cases goes
  | _ => exact claimed rfl

theorem guarded (silent : Silent jobs before after event)
    (guarded : Guarded jobs before) : Guarded jobs after := by
  constructor
  · intro username key stored settled other step accepted
    rw [(silent.factor username).sameKey] at stored
    rw [(silent.factor username).lastStep]
    exact guarded.spent username key stored
      (fun waits => settled (silent.awaits waits)) other step
      (silent.accepted accepted)
  · intro one other username key step first second
    exact guarded.once one other username key step
      (silent.accepted first) (silent.accepted second)

end Silent

theorem silent_of_aside
    (performed : Performed (spending primitives jobs) thread before request
      answer after)
    (aside : request.IsAside) :
    Silent jobs before after ⟨thread, request, answer⟩ where
  past := performed.past
  factor _ := sameFactor_of_aside (perform_of_spending performed) aside
  accepts username step claimed same := by
    cases same
    exact aside.elim
  stores _ := stores_of_aside aside

theorem silent_of_vain_set {secret : Option String}
    {answer : Except AccountError Bool}
    (performed : Performed (spending primitives jobs) thread before
      (.setTotpSecret username secret) answer after)
    (vain : answer ≠ .ok true) :
    Silent jobs before after
      ⟨thread, .setTotpSecret username secret, answer⟩ where
  past := performed.past
  factor name := by
    rcases answer with reason | stored
    · exact .of_users (congrArg World.users
        (effect_of_performed (perform_of_spending performed)))
    · cases stored with
      | false => exact factor_of_vain_set (perform_of_spending performed)
      | true => exact absurd rfl vain
  accepts _ _ _ same := by cases same
  stores name := by
    rcases answer with reason | stored
    · rfl
    · cases stored with
      | false => rfl
      | true => exact absurd rfl vain

/-- A claim that is refused ends every request but an enabling. -/
theorem silent_of_vain_claim {answer : Except AccountError Bool}
    (performed : Performed (spending primitives jobs) thread before
      (.claimTotpStep username step) answer after)
    (vain : ∀ claimed, answer = .ok claimed →
      goesOn jobs thread claimed = false) :
    Silent jobs before after
      ⟨thread, .claimTotpStep username step, answer⟩ where
  past := performed.past
  factor name := by
    apply SameFactor.of_users
    rw [world_of_vain_claim (perform_of_spending performed)]
    rintro rfl
    have goes := vain true rfl
    rw [goesOn, Bool.true_or] at goes
    cases goes
  accepts _ _ claimed same := by
    cases same
    exact vain claimed rfl
  stores _ := rfl

variable {other : String} {claimed : Bool} {moment : Moment}

/-- What the past leaves open where another account is concerned. -/
theorem spent_of_elsewhere (holds : Guarded jobs before)
    (factor : SameFactor before.world after.world other)
    (waits : Awaits jobs other before.past → Awaits jobs other after.past)
    (known : ∀ thread key step,
      Accepted jobs thread other key step after.past →
        Accepted jobs thread other key step before.past)
    (stored : after.world.key other = some key)
    (settled : ¬ Awaits jobs other after.past)
    (accepted : Accepted jobs thread other key step after.past) :
    ∃ last, after.world.lastStep other = some last ∧ step ≤ last := by
  rw [factor.sameKey] at stored
  rw [factor.lastStep]
  exact holds.spent other key stored (fun open_ => settled (waits open_))
    thread step (known thread key step accepted)

theorem awaits_of_claim {claimed : Except AccountError Bool}
    (past : after.past =
      before.past ++ [⟨thread, .claimTotpStep username step, claimed⟩])
    (elsewhere : other ≠ username) (waits : Awaits jobs other before.past) :
    Awaits jobs other after.past := by
  obtain ⟨waiting, last, enables, unclaimed⟩ := waits
  refine ⟨waiting, ?_, enables, ?_⟩
  · rw [past, changer_append]
    exact last
  · rw [past, List.any_append, unclaimed, Bool.false_or, List.any_cons,
      List.any_nil, Bool.or_false]
    cases claimed with
    | error reason => rfl
    | ok won => simp [claims, Ne.symm elsewhere]

theorem accepted_of_claim {claimed : Except AccountError Bool}
    (past : after.past =
      before.past ++ [⟨thread, .claimTotpStep username step, claimed⟩])
    {caller : Nat} {later : Int} (fresh : other ≠ username ∨ caller ≠ thread)
    (accepted : Accepted jobs caller other key later after.past) :
    Accepted jobs caller other key later before.past := by
  rw [past] at accepted
  rcases accepted.of_append with known | ⟨won, same, -, -⟩
  · exact known
  · cases same
    rcases fresh with elsewhere | else_
    · exact absurd rfl elsewhere
    · exact absurd rfl else_

/-- A claim whose step is later than all that was accepted under the key of the
account, by a request that had not claimed before, and that leaves the guard
at its step or beyond. -/
theorem guarded_of_claim {last : Int} (holds : Guarded jobs before)
    (past : after.past = before.past ++
      [⟨thread, .claimTotpStep username step, .ok claimed⟩])
    (elsewhere : ∀ other, other ≠ username →
      SameFactor before.world after.world other)
    (checked : ∀ key, Checks jobs thread username key before.past →
      ∀ caller earlier,
        Accepted jobs caller username key earlier before.past →
          earlier < step)
    (stored : ∀ key, after.world.key username = some key →
      ∀ caller earlier,
        Accepted jobs caller username key earlier before.past →
          earlier ≤ last) (guard : after.world.lastStep username = some last)
    (reached : step ≤ last) :
    Guarded jobs after := by
  constructor
  · intro other key held settled caller later accepted
    by_cases here : other = username
    · subst here
      refine ⟨last, guard, ?_⟩
      rw [past] at accepted
      rcases accepted.of_append with known | ⟨won, same, -, -⟩
      · exact stored key held caller later known
      · cases same
        exact reached
    · exact spent_of_elsewhere holds (elsewhere other here)
        (awaits_of_claim past here)
        (fun _ _ _ => accepted_of_claim past (.inl here)) held settled accepted
  · intro one other name key later first second
    rw [past] at first second
    rcases first.of_append with known | ⟨won, same, -, checks⟩
    · rcases second.of_append with known' | ⟨won', same', -, checks'⟩
      · exact holds.once one other name key later known known'
      · cases same'
        exact absurd (checked key checks' one _ known) (lt_irrefl _)
    · cases same
      rcases second.of_append with known' | ⟨won', same', -, -⟩
      · exact absurd (checked key checks other _ known')
          (lt_irrefl _)
      · cases same'
        rfl

theorem guarded_of_current
    (performed : Performed (spending primitives jobs) thread before
      (.claimTotpStep username step) (.ok true) after)
    (checks : (jobs thread).isEnable = false) : Guarded jobs after := by
  obtain ⟨later, secret, guard⟩ :=
    factor_of_claim (perform_of_spending performed)
  have settled : ¬ Awaits jobs username before.past := by
    rintro ⟨other, last, enables, unclaimed⟩
    have claimed := performed.meets.settled username step checks rfl other last
      enables
    rw [claimed] at unclaimed
    cases unclaimed
  have same : after.world.key username = before.world.key username := by
    rw [World.key, World.key, secret]
  have earlier : ∀ held, before.world.key username = some held →
      ∀ caller spent,
        Accepted jobs caller username held spent before.past →
          spent < step := by
    intro held stored caller spent accepted
    obtain ⟨last, seen, below⟩ := performed.holds.spent username held stored
      settled caller spent accepted
    exact below.trans_lt (later last seen)
  apply guarded_of_claim performed.holds performed.past
  · intro other elsewhere
    apply factor_of_performed (perform_of_spending performed)
    · exact fun _ => nofun
    · intro step same
      cases same
      exact elsewhere rfl
  · intro held checked caller spent accepted
    have stored := performed.meets.current username held step checks rfl checked
    exact earlier held stored caller spent accepted
  · intro held stored caller spent accepted
    rw [same] at stored
    exact (earlier held stored caller spent accepted).le
  · exact guard
  · exact le_refl step

/-- A request that stores a secret leaves the guard to its own claim, or there
is no secret to guard. -/
theorem guarded_of_set {secret : Option String}
    (performed : Performed (spending primitives jobs) thread before
      (.setTotpSecret username secret) (.ok true) after)
    (waits : secret.isSome = true → (jobs thread).isEnable = true ∧
      before.past.any (claims thread username) = false) :
    Guarded jobs after := by
  obtain ⟨now, -⟩ := factor_of_set (perform_of_spending performed)
  have known : ∀ caller other held step,
      Accepted jobs caller other held step after.past →
        Accepted jobs caller other held step before.past := by
    intro caller other held step accepted
    rw [performed.past] at accepted
    rcases accepted.of_append with known | ⟨won, same, -, -⟩
    · exact known
    · cases same
  constructor
  · intro other held stored settled caller step accepted
    by_cases here : other = username
    · subst here
      obtain ⟨held, is, -⟩ := Option.bind_eq_some_iff.mp stored
      rw [now] at is
      obtain ⟨enables, unclaimed⟩ := waits (by rw [is]; rfl)
      refine absurd ⟨thread, ?_, enables, ?_⟩ settled
      · rw [performed.past, changer_append, if_pos (by simp [stores])]
      · rw [performed.past, List.any_append, unclaimed]
        rfl
    · apply spent_of_elsewhere performed.holds _ _ (fun _ _ _ => known _ _ _ _)
        stored settled accepted
      · apply factor_of_performed (perform_of_spending performed)
        · intro secret same
          cases same
          exact here rfl
        · exact fun _ => nofun
      · rintro ⟨waiting, last, enables, unclaimed⟩
        refine ⟨waiting, ?_, enables, ?_⟩
        · rw [performed.past, changer_append,
            if_neg (by simp [stores, Ne.symm here])]
          exact last
        · rw [performed.past, List.any_append, unclaimed]
          rfl
  · intro one other name held step first second
    exact performed.holds.once one other name held step
      (known _ _ _ _ first) (known _ _ _ _ second)

/-- An enabling between its secret and its claim: unless the secret is changed
again, it is the account's, and no code accepted with its key is later. -/
structure Ahead (jobs : Nat → Job) (thread : Nat) (username secret : String)
    (key : Bytes) (step : Int) (moment : Moment) : Prop where
  decodes : Totp.base32Decode secret = some key
  unclaimed : moment.past.any (claims thread username) = false
  stored : changer username moment.past = some thread →
    moment.world.secret username = some secret
  later : changer username moment.past = some thread →
    ∀ caller earlier,
      Accepted jobs caller username key earlier moment.past → earlier < step

theorem Ahead.holdsKey {secret : String} {moment : Moment}
    (ahead : Ahead jobs thread username secret key step moment)
    (last : changer username moment.past = some thread) :
    moment.world.key username = some key := by
  rw [World.key, ahead.stored last, Option.bind_some, ahead.decodes]

/-- While an enabling has its claim to make, no other request claims a step of
the account. -/
theorem silent_of_ahead {other : Nat} (different : other ≠ thread)
    (enables : (jobs thread).isEnable = true)
    (unclaimed : before.past.any (claims thread username) = false)
    (last : changer username before.past = some thread)
    (performed : Performed (spending primitives jobs) other before request
      answer after)
    (same : (⟨other, request, answer⟩ : Event) =
      ⟨other, .claimTotpStep username step, .ok claimed⟩) :
    claimed = false ∧ (jobs other).isEnable = false := by
  cases same
  cases theirs : (jobs other).isEnable with
  | true =>
    have own := performed.meets.own username step claimed theirs rfl
    rw [last] at own
    cases own
    exact absurd rfl different
  | false =>
    cases claimed with
    | false => exact ⟨rfl, rfl⟩
    | true =>
      have settled := performed.meets.settled username step theirs rfl
        thread last enables
      rw [settled] at unclaimed
      cases unclaimed

theorem Ahead.stable {secret : String}
    (enables : (jobs thread).isEnable = true) :
    (spending primitives jobs).Stable thread
      (Ahead jobs thread username secret key step) := by
  rintro before after ahead ⟨other, different, -, -, request, answer,
    performed⟩
  have claim : ∀ later claimed, (⟨other, request, answer⟩ : Event) =
      ⟨other, .claimTotpStep username later, .ok claimed⟩ →
        changer username before.past = some thread →
          claimed = false ∧ (jobs other).isEnable = false :=
    fun later claimed same last => silent_of_ahead different enables
      ahead.unclaimed last performed same
  have before_ : changer username after.past = some thread →
      changer username before.past = some thread ∧
        stores username ⟨other, request, answer⟩ = false := by
    intro last
    rw [performed.past, changer_append] at last
    split at last
    · cases last
      exact absurd rfl different
    · rename_i silent
      exact ⟨last, Bool.eq_false_iff.mpr silent⟩
  constructor
  · exact ahead.decodes
  · rw [performed.past, List.any_append, ahead.unclaimed, Bool.false_or,
      List.any_cons, List.any_nil, Bool.or_false]
    cases request with
    | claimTotpStep name later =>
      cases answer with
      | error reason => rfl
      | ok won => simp [claims, different]
    | _ => rfl
  · intro last
    obtain ⟨earlier, silent⟩ := before_ last
    rw [← ahead.stored earlier]
    cases request with
    | setTotpSecret name held =>
      by_cases won : answer = .ok true
      · subst won
        simp only [stores, decide_eq_false_iff_not] at silent
        exact (factor_of_performed (perform_of_spending performed)
          (fun secret same => by cases same; exact silent rfl)
          fun _ => nofun).secret
      · exact ((silent_of_vain_set performed won).factor username).secret
    | claimTotpStep name later =>
      by_cases won : answer = .ok true
      · subst won
        by_cases here : name = username
        · subst here
          exact absurd (claim later true rfl earlier).1 nofun
        · exact (factor_of_performed (perform_of_spending performed)
            (fun _ => nofun)
            fun step same => by cases same; exact here rfl).secret
      · rw [world_of_vain_claim (perform_of_spending performed) won]
    | _ =>
      exact (sameFactor_of_aside (perform_of_spending performed)
        trivial).secret
  · intro last caller spent accepted
    obtain ⟨earlier, -⟩ := before_ last
    apply ahead.later earlier caller spent
    rw [performed.past] at accepted
    rcases accepted.of_append with known | ⟨won, same, goes, -⟩
    · exact known
    · obtain ⟨rfl, checks⟩ : won = false ∧ (jobs caller).isEnable = false := by
        have theirs : other = caller := congrArg Process.Event.thread same
        subst theirs
        exact claim spent won same earlier
      rw [goesOn, checks] at goes
      cases goes

theorem guarded_of_own {cookie : Option String} {form : EnableForm}
    (mine : jobs thread = .enable cookie form)
    (ahead : Ahead jobs thread username form.secret key step before)
    (performed : Performed (spending primitives jobs) thread before
      (.claimTotpStep username step) (.ok claimed) after) :
    Guarded jobs after := by
  have enables : (jobs thread).isEnable = true := by rw [mine]; rfl
  have last := performed.meets.own username step claimed enables rfl
  have stored := ahead.stored last
  have held := ahead.holdsKey last
  have later := ahead.later last
  have checked : ∀ key, Checks jobs thread username key before.past →
      ∀ caller earlier,
        Accepted jobs caller username key earlier before.past →
          earlier < step := by
    intro other checks
    rw [Checks, mine] at checks
    cases ahead.decodes.symm.trans checks
    exact later
  have elsewhere : ∀ other, other ≠ username →
      SameFactor before.world after.world other := by
    intro other different
    apply factor_of_performed (perform_of_spending performed)
    · exact fun _ => nofun
    · intro step same
      cases same
      exact different rfl
  cases claimed with
  | true =>
    obtain ⟨-, secret, guard⟩ :=
      factor_of_claim (perform_of_spending performed)
    apply guarded_of_claim performed.holds performed.past elsewhere checked
      _ guard (le_refl step)
    intro other has caller earlier accepted
    rw [World.key, secret, ← World.key, held] at has
    cases has
    exact (later caller earlier accepted).le
  | false =>
    obtain ⟨guard, seen, reached⟩ :=
      factor_of_vain_claim (perform_of_spending performed) stored
    have same := world_of_vain_claim (perform_of_spending performed) nofun
    apply guarded_of_claim performed.holds performed.past elsewhere checked
      _ (same ▸ seen) reached
    intro other has caller earlier accepted
    rw [same, held] at has
    cases has
    exact (later caller earlier accepted).le.trans reached

/-- A call that does not turn the second factor on. -/
def Call.SetsNoSecret : Call → Prop
  | .setTotpSecret _ (some _) => False
  | _ => True

theorem setsNoSecret_of_plain (request : Call) (plain : request.IsPlain) :
    request.SetsNoSecret := by
  cases request with
  | setTotpSecret => exact plain.elim
  | _ => trivial

theorem anytime_stable :
    (spending primitives jobs).Stable thread fun _ => True :=
  fun _ _ _ _ => trivial

theorem guarded_of_performed (checks : (jobs thread).isEnable = false)
    (performed : Performed (spending primitives jobs) thread before request
      answer after)
    (sets : request.SetsNoSecret) : Guarded jobs after := by
  cases request with
  | setTotpSecret username secret =>
    by_cases won : answer = .ok true
    · subst won
      apply guarded_of_set performed
      intro some_
      cases secret with
      | none => cases some_
      | some secret => exact sets.elim
    · exact (silent_of_vain_set performed won).guarded performed.holds
  | claimTotpStep username step =>
    by_cases won : answer = .ok true
    · subst won
      exact guarded_of_current performed checks
    · refine (silent_of_vain_claim performed ?_).guarded performed.holds
      rintro claimed rfl
      cases claimed with
      | true => exact absurd rfl won
      | false => rw [goesOn, checks, Bool.or_false]
  | _ => exact (silent_of_aside performed trivial).guarded performed.holds

theorem guarded_of_only {program : Program Response}
    (checks : (jobs thread).isEnable = false)
    (only : program.Only Call.SetsNoSecret) :
    Safe (spending primitives jobs) thread (fun _ _ => True) program
      moment := by
  apply Safe.of_only anytime_stable _ only trivial
  intro before request answer after allowed _ performed
  exact ⟨guarded_of_performed checks performed allowed, trivial, trivial⟩

theorem createUser_only (username password : String) :
    (createUser username password).Only Call.SetsNoSecret := by
  apply Prog.Only.proceed
  intro _
  apply Prog.Only.proceed
  intro _
  refine ⟨trivial, fun hash => ?_⟩
  cases hash with
  | error reason => trivial
  | ok hash => exact ⟨trivial, fun _ => trivial⟩

theorem signIn_only (username destination : String) :
    (signIn username destination).Only Call.SetsNoSecret := by
  refine ⟨trivial, fun answer => ?_⟩
  obtain ⟨now, drawn⟩ := answer
  cases drawn <;> trivial

theorem setupSubmit_only (form : SetupForm) :
    (setupSubmit form).Only Call.SetsNoSecret := by
  simp only [setupSubmit]
  split
  · trivial
  · apply storeOr503_only setsNoSecret_of_plain
    refine ⟨trivial, fun count => ?_⟩
    rcases count with reason | count
    · trivial
    · cases count with
      | succ count => trivial
      | zero =>
        apply (createUser_only _ _).bind
        intro created
        rcases created with reason | _
        · cases reason <;> trivial
        · exact signIn_only _ _

theorem loginSubmit_only (form : LoginForm) :
    (loginSubmit form).Only Call.SetsNoSecret := by
  apply storeOr503_only setsNoSecret_of_plain
  apply (verifyPassword_only setsNoSecret_of_plain _ _).bind
  intro verified
  rcases verified with reason | verified
  · cases reason <;> trivial
  · cases verified with
    | false => trivial
    | true =>
      refine ⟨trivial, fun secret => ?_⟩
      rcases secret with reason | secret
      · trivial
      · cases secret with
        | none => exact signIn_only _ _
        | some secret =>
          refine ⟨trivial, fun answer => ?_⟩
          obtain ⟨now, drawn⟩ := answer
          cases drawn <;> trivial

theorem codeSubmit_only (cookie : Option String) (code : String) :
    (codeSubmit primitives cookie code).Only Call.SetsNoSecret := by
  cases cookie with
  | none => trivial
  | some token =>
    refine ⟨trivial, fun answer => ?_⟩
    obtain ⟨now, username⟩ := answer
    cases username with
    | none => trivial
    | some username =>
      apply storeOr503_only setsNoSecret_of_plain
      apply (checkCode_only username code trivial trivial
        fun _ => trivial).bind
      intro checked
      rcases checked with reason | checked
      · trivial
      · cases checked with
        | true => exact ⟨trivial, fun _ => signIn_only _ _⟩
        | false =>
          refine ⟨trivial, fun left => ?_⟩
          cases left <;> trivial

theorem disable_only (cookie : Option String) (form : DisableForm) :
    (disable primitives cookie form).Only Call.SetsNoSecret := by
  apply currentUser_only setsNoSecret_of_plain
  intro user
  cases user with
  | none => trivial
  | some user =>
    apply storeOr503_only setsNoSecret_of_plain
    apply passwordOk_only setsNoSecret_of_plain
    intro verified
    cases verified with
    | false => trivial
    | true =>
      apply (checkCode_only _ _ trivial trivial fun _ => trivial).bind
      intro checked
      rcases checked with reason | checked
      · trivial
      · cases checked with
        | false => trivial
        | true =>
          refine ⟨trivial, fun cleared => ?_⟩
          cases cleared <;> trivial

/-- An enabling that has claimed nothing yet. -/
def Unclaimed (thread : Nat) (moment : Moment) : Prop :=
  ∀ username, moment.past.any (claims thread username) = false

theorem Unclaimed.of_performed {other : Nat}
    (unclaimed : Unclaimed thread before)
    (performed : Performed (spending primitives jobs) other before request
      answer after)
    (silent : other ≠ thread ∨ ∀ username step,
      request ≠ .claimTotpStep username step) :
    Unclaimed thread after := by
  intro username
  rw [performed.past, List.any_append, unclaimed username, Bool.false_or,
    List.any_cons, List.any_nil, Bool.or_false]
  cases request with
  | claimTotpStep name step =>
    rcases silent with different | silent
    · cases answer with
      | error reason => rfl
      | ok won => simp [claims, different]
    · exact absurd rfl (silent name step)
  | _ => rfl

theorem Unclaimed.stable :
    (spending primitives jobs).Stable thread (Unclaimed thread) := by
  rintro before after unclaimed ⟨other, different, -, -, request, answer,
    performed⟩
  exact unclaimed.of_performed performed (.inl different)

theorem guarded_of_plain {α : Type} {program : Program α}
    (only : program.Only Call.IsPlain) (unclaimed : Unclaimed thread moment) :
    Safe (spending primitives jobs) thread
      (fun _ after => Unclaimed thread after) program moment := by
  apply Safe.of_only Unclaimed.stable _ only unclaimed
  intro before request answer after plain held performed
  have aside : request.IsAside := by
    cases request with
    | setTotpSecret | claimTotpStep => exact plain.elim
    | _ => trivial
  refine ⟨(silent_of_aside performed aside).guarded performed.holds, trivial,
    held.of_performed performed (.inr ?_)⟩
  rintro username step rfl
  exact aside.elim

/-- The clock reading that confirmed a secret. -/
def Reads (thread : Nat) (now : Int) (moment : Moment) : Prop :=
  (⟨thread, .nowEpoch, now⟩ : Event) ∈ moment.past

theorem Reads.stable {now : Int} :
    (spending primitives jobs).Stable thread (Reads thread now) := by
  rintro before after reads ⟨other, -, -, -, request, answer, performed⟩
  rw [Reads, performed.past]
  exact List.mem_append_left _ reads

section Entering

variable {rest : Program Response} {moment : Moment}
variable (unclaimed : Unclaimed thread moment)

include unclaimed

theorem guarded_plainCall {next : Answer request → Program Response}
    (plain : request.IsPlain)
    (safe : ∀ answer after, Unclaimed thread after →
      Safe (spending primitives jobs) thread (fun _ _ => True) (next answer)
        after) :
    Safe (spending primitives jobs) thread (fun _ _ => True)
      (.call request next) moment := by
  have once : Safe (spending primitives jobs) thread
      (fun _ after => Unclaimed thread after) (.call request .done) moment :=
    guarded_of_plain ⟨plain, fun _ => trivial⟩ unclaimed
  exact once.bind safe

theorem guarded_storeOr503
    (safe : ∀ after, Unclaimed thread after →
      Safe (spending primitives jobs) thread (fun _ _ => True) rest after) :
    Safe (spending primitives jobs) thread (fun _ _ => True)
      (storeOr503 rest) moment := by
  apply guarded_plainCall unclaimed
  · trivial
  · intro opened after unclaimed
    cases opened with
    | error reason => trivial
    | ok _ => exact safe after unclaimed

theorem guarded_currentUser {cookie : Option String}
    {rest : Option (String × String) → Program Response}
    (safe : ∀ user after, Unclaimed thread after →
      Safe (spending primitives jobs) thread (fun _ _ => True) (rest user)
        after) :
    Safe (spending primitives jobs) thread (fun _ _ => True)
      (currentUser cookie rest) moment := by
  cases cookie with
  | none => exact safe none moment unclaimed
  | some token =>
    apply guarded_plainCall unclaimed
    · trivial
    · intro answer after unclaimed
      exact safe _ after unclaimed

theorem guarded_passwordOk {password : String} {rest : Bool → Program Response}
    (safe : ∀ verified after, Unclaimed thread after →
      Safe (spending primitives jobs) thread (fun _ _ => True) (rest verified)
        after) :
    Safe (spending primitives jobs) thread (fun _ _ => True)
      (passwordOk username password rest) moment := by
  apply Safe.bind (guarded_of_plain
    (verifyPassword_only (fun _ plain => plain) username password) unclaimed)
  intro verified after unclaimed
  cases verified with
  | ok verified => exact safe verified after unclaimed
  | error reason => cases reason <;> trivial

end Entering

theorem guarded_enable {cookie : Option String} {form : EnableForm}
    (mine : jobs thread = .enable cookie form)
    (unclaimed : Unclaimed thread moment) :
    Safe (spending primitives jobs) thread (fun _ _ => True)
      (enable primitives cookie form) moment := by
  have enables : (jobs thread).isEnable = true := by rw [mine]; rfl
  apply guarded_currentUser unclaimed
  intro user moment unclaimed
  rcases user with _ | ⟨token, username⟩
  · trivial
  apply guarded_storeOr503 unclaimed
  intro moment unclaimed
  split
  · trivial
  apply guarded_passwordOk unclaimed
  intro verified moment unclaimed
  cases verified with
  | false => trivial
  | true =>
    apply Safe.call Unclaimed.stable unclaimed
    intro before now after unclaimed performed
    refine ⟨(silent_of_aside performed trivial).guarded performed.holds,
      trivial, ?_⟩
    replace unclaimed : Unclaimed thread after :=
      unclaimed.of_performed performed (.inr fun _ _ => nofun)
    have reads : Reads thread now after := by
      rw [Reads, performed.past]
      exact List.mem_append_right _ List.mem_cons_self
    split
    · trivial
    rename_i step verified
    apply Safe.call (Reads.stable.and Unclaimed.stable) ⟨reads, unclaimed⟩
    rintro before stored after ⟨reads, unclaimed⟩ performed
    rcases stored with reason | stored
    · exact ⟨(silent_of_vain_set performed nofun).guarded performed.holds,
        trivial, trivial⟩
    cases stored with
    | false =>
      exact ⟨(silent_of_vain_set performed nofun).guarded performed.holds,
        trivial, trivial⟩
    | true =>
      refine ⟨guarded_of_set performed
        fun _ => ⟨enables, unclaimed username⟩, trivial, ?_⟩
      obtain ⟨key, decodes⟩ := decodes_of_verify verified
      have ahead : Ahead jobs thread username form.secret key step after := by
        refine ⟨decodes, unclaimed.of_performed performed
            (.inr fun _ _ => nofun) username,
          fun _ => (factor_of_set (perform_of_spending performed)).1, ?_⟩
        intro _ caller earlier accepted
        rw [performed.past] at accepted
        rcases accepted.of_append with known | ⟨claimed, same, -, -⟩
        · exact performed.meets.renewed cookie form username key now step
            mine rfl decodes reads verified caller earlier known
        · cases same
      apply Safe.call (Ahead.stable enables) ahead
      intro before claimed after ahead performed
      rcases claimed with reason | claimed
      · exact ⟨(silent_of_vain_claim performed nofun).guarded
          performed.holds, trivial, trivial⟩
      refine ⟨guarded_of_own mine ahead performed, trivial, ?_⟩
      apply Safe.call anytime_stable trivial
      intro before revoked after _ performed
      exact ⟨(silent_of_aside performed trivial).guarded performed.holds,
        trivial, trivial⟩

/-- In every run in which each enabling spends its step before anything else is
claimed or changed, no code is accepted by two requests. -/
theorem code_accepted_once (world : World) {trace : List Event}
    {reached : Process.Pool Nat World Call Answer Response}
    (run : Process.Run (perform primitives) (InTurn primitives jobs)
      (pool primitives world jobs) trace reached)
    {one other : Nat} (first : Accepted jobs one username key step trace)
    (second : Accepted jobs other username key step trace) :
    one = other := by
  have nothing : ∀ thread username key step,
      ¬ Accepted jobs thread username key step [] := by
    rintro thread username key step ⟨earlier, claimed, later, whole, -⟩
    simp at whole
  have start : Guarded jobs ⟨world, []⟩ :=
    ⟨fun _ _ _ _ _ _ accepted => absurd accepted (nothing _ _ _ _),
      fun _ _ _ _ _ accepted => absurd accepted (nothing _ _ _ _)⟩
  have sound : Process.Sound (spending primitives jobs) (fun _ _ _ => True)
      trace reached := by
    refine Process.Run.sound (fun _ _ => anytime_stable) run ⟨start, ?_⟩
    intro thread
    change Safe _ _ _ ((jobs thread).program primitives) _
    cases mine : jobs thread with
    | setup form =>
      exact guarded_of_only (by rw [mine]; rfl) (setupSubmit_only form)
    | login form =>
      exact guarded_of_only (by rw [mine]; rfl) (loginSubmit_only form)
    | code cookie typed =>
      exact guarded_of_only (by rw [mine]; rfl) (codeSubmit_only cookie typed)
    | changePassword cookie form =>
      exact guarded_of_only (by rw [mine]; rfl)
        (changePassword_only setsNoSecret_of_plain cookie form
          fun _ => trivial)
    | enable cookie form => exact guarded_enable mine fun _ => rfl
    | disable cookie form =>
      exact guarded_of_only (by rw [mine]; rfl) (disable_only cookie form)
    | idle => trivial
  exact sound.holds.once one other username key step first second

/-- Sam turns the second factor on while a sign-in waits for a code. -/
def enrolling (typed : String) : Nat → Job
  | 0 => .enable (some "cookie") ⟨knownSecret, "287082", knownPassword⟩
  | 1 => .login ⟨"sam", knownPassword⟩
  | 2 => .code (some "parked") typed
  | _ => .idle

/-- The sign-in uses the next code, once the enabling is over. -/
def nextCode : List Event :=
  startsEnabling 0 ++ endsEnabling 0 true ++ parks 1 ++ startsCode 2 60 ++
    [⟨2, .claimTotpStep "sam" 2, .ok true⟩] ++ endsCode 2 "second"

/-- The sign-in uses the confirming code before the enabling spends it. -/
def sameCode : List Event :=
  startsEnabling 0 ++ parks 1 ++ startsCode 2 30 ++
    [⟨2, .claimTotpStep "sam" 1, .ok true⟩] ++ endsEnabling 0 false ++
    endsCode 2 "second"

/-- Whether a step of the account was claimed at all. -/
def claimedAny (username : String) : Event → Bool
  | ⟨_, .claimTotpStep name _, .ok _⟩ => name = username
  | _ => false

/-- Whether the request read another secret than this one. -/
def readOther (thread : Nat) (username : String) (held : Option String) :
    Event → Bool
  | ⟨other, .selectTotpSecret name, .ok (some secret)⟩ =>
    other = thread && name = username && held ≠ some secret
  | _ => false

def inTurn (jobs : Nat → Job) (moment : Moment) : Event → Bool
  | ⟨_, .setTotpSecret username (some _), .ok true⟩ =>
    !moment.past.any (claimedAny username)
  | ⟨thread, .claimTotpStep username _, .ok claimed⟩ =>
    if (jobs thread).isEnable then changer username moment.past = some thread
    else
      !claimed ||
        (!moment.past.any (readOther thread username
            (moment.world.secret username)) &&
          (changer username moment.past).all fun other =>
            moment.past.any (claims other username))
  | _ => true

theorem inTurn_of_check {event : Event}
    (checked : inTurn jobs moment event = true) :
    InTurn primitives jobs moment event := by
  constructor
  · intro cookie form username key now step _ same _ _ _ caller earlier accepted
    rw [same, inTurn, Bool.not_eq_true'] at checked
    obtain ⟨before, claimed, later, whole, -, -⟩ := accepted
    rw [whole, List.any_append, List.any_cons] at checked
    simp [claimedAny] at checked
  · intro username step claimed enables same
    rw [same, inTurn, if_pos enables] at checked
    simpa using checked
  · intro username key step enables same checks
    obtain ⟨secret, read, decodes⟩ : ∃ secret,
        (⟨event.thread, .selectTotpSecret username, .ok (some secret)⟩ :
            Event) ∈ moment.past ∧
          Totp.base32Decode secret = some key := by
      cases mine : jobs event.thread with
      | enable cookie form =>
        rw [mine] at enables
        cases enables
      | _ =>
        rw [Checks, mine] at checks
        exact checks
    rw [same, inTurn, if_neg (by rw [enables]; exact Bool.false_ne_true),
      Bool.not_true, Bool.false_or, Bool.and_eq_true] at checked
    have agrees := checked.1
    rw [Bool.not_eq_true', List.any_eq_false] at agrees
    have stored : moment.world.secret username = some secret := by
      simpa [readOther] using agrees _ read
    rw [World.key, stored, Option.bind_some, decodes]
  · intro username step enables same thread last _
    rw [same, inTurn, if_neg (by rw [enables]; exact Bool.false_ne_true),
      Bool.not_true, Bool.false_or, Bool.and_eq_true, last,
      Option.all_some] at checked
    exact checked.2

/-- The responses of the two. -/
def codesView (reached : Process.Pool Nat World Call Answer Response) :
    Option Response × Option Response × Option String :=
  ((reached.threads 0).result?, (reached.threads 2).result?,
    (reached.world.sessions "second").map (·.username))

/-- The bytes that `knownSecret` spells. -/
def knownKey : Bytes := Vault.toUtf8 "12345678901234567890"

theorem decodes_knownSecret :
    Totp.base32Decode knownSecret = some knownKey := by
  decide +kernel

theorem checks_of_read {typed : String}
    (read : (⟨2, .selectTotpSecret "sam", .ok (some knownSecret)⟩ : Event) ∈
      past) :
    Checks (enrolling typed) 2 "sam" knownKey past :=
  ⟨knownSecret, read, decodes_knownSecret⟩

/-- The next code signs in, and no other request accepted it. -/
theorem next_code_accepted_once :
    ∃ reached, Process.Run (perform plainPrimitives)
        (InTurn plainPrimitives (enrolling "359152"))
        (pool plainPrimitives (claimedBySam none) (enrolling "359152"))
        nextCode reached ∧
      Accepted (enrolling "359152") 2 "sam" knownKey 2 nextCode ∧
        ∀ other,
          Accepted (enrolling "359152") other "sam" knownKey 2 nextCode →
            other = 2 := by
  have replayed : (Process.replay (perform plainPrimitives)
      (inTurn (enrolling "359152")) []
      (pool plainPrimitives (claimedBySam none) (enrolling "359152"))
        nextCode).map codesView =
      some (some (.redirect "/settings/account/totp?saved=on"),
        some (.signedIn "second" "/"), some "sam") := by
    decide +kernel
  obtain ⟨reached, run, -⟩ :=
    Process.Run.exists_of_replay (fun _ _ => inTurn_of_check) replayed
  have accepted : Accepted (enrolling "359152") 2 "sam" knownKey 2
      nextCode := by
    refine ⟨startsEnabling 0 ++ endsEnabling 0 true ++ parks 1 ++
      startsCode 2 60, true, endsCode 2 "second", rfl, rfl, ?_⟩
    exact checks_of_read (List.mem_append_right _ (by simp [startsCode]))
  exact ⟨reached, run, accepted, fun other theirs =>
    code_accepted_once (claimedBySam none) run theirs accepted⟩

/-- The confirming code has turned the factor on and signed somebody in. -/
theorem confirming_code_signs_in :
    ∃ reached, Process.Run (perform plainPrimitives) .always
        (pool plainPrimitives (claimedBySam none) (enrolling "287082"))
        sameCode reached ∧
      Accepted (enrolling "287082") 0 "sam" knownKey 1 sameCode ∧
        Accepted (enrolling "287082") 2 "sam" knownKey 1 sameCode ∧
          reached.threads 0 =
              .done (.redirect "/settings/account/totp?saved=on") ∧
            reached.threads 2 = .done (.signedIn "second" "/") := by
  have replayed : (Process.replay (perform plainPrimitives)
      (fun _ _ => true) []
      (pool plainPrimitives (claimedBySam none) (enrolling "287082"))
        sameCode).map codesView =
      some (some (.redirect "/settings/account/totp?saved=on"),
        some (.signedIn "second" "/"), some "sam") := by
    decide +kernel
  obtain ⟨reached, run, viewed⟩ :=
    Process.Run.exists_of_replay (fun _ _ _ => trivial) replayed
  simp only [codesView, Prod.mk.injEq] at viewed
  refine ⟨reached, run, ?_, ?_, Prog.eq_done_of_result? viewed.1,
    Prog.eq_done_of_result? viewed.2.1⟩
  · exact ⟨startsEnabling 0 ++ parks 1 ++ startsCode 2 30 ++
      [⟨2, .claimTotpStep "sam" 1, .ok true⟩], false,
      ⟨0, .revokeAllExcept "cookie", ()⟩ :: endsCode 2 "second", rfl, rfl,
      decodes_knownSecret⟩
  · refine ⟨startsEnabling 0 ++ parks 1 ++ startsCode 2 30, true,
      endsEnabling 0 false ++ endsCode 2 "second", rfl, rfl, ?_⟩
    exact checks_of_read (List.mem_append_right _ (by simp [startsCode]))

end Accounts

end Sharerr
