import Sharerr.Accounts.Rules

/-!
# One owner

Setup counts the accounts, hashes the password, and then inserts.  The table
refuses a second account of the same name only, so an instance gets one owner
as long as no request inserts an account of another name between a request's
count and its insert.
-/

namespace Sharerr

namespace Accounts

open Process (Prog Performed Safe)

def inserts : Event → Bool
  | ⟨_, .insertUser _ _, .ok _⟩ => true
  | _ => false

/-- Since the thread counted no accounts, one of another name was inserted. -/
def Rivalled (thread : Nat) (username : String) (past : List Event) : Prop :=
  ∃ earlier later other name hash,
    past = earlier ++ ⟨thread, .userCount, .ok 0⟩ :: later ∧
      (⟨other, .insertUser name hash, .ok ()⟩ : Event) ∈ later ∧
        name ≠ username

/-- No account is inserted after one of another name that its request did not
count. -/
def Unrivalled : Process.Condition Nat World Call Answer :=
  fun moment event => ∀ username hash,
    event.request = .insertUser username hash →
      ¬ Rivalled event.thread username moment.past

/-- At most one account was inserted, and it is all there is. -/
structure OneOwner (moment : Moment) : Prop where
  counted : moment.world.users.names.length = moment.past.countP inserts
  once : moment.past.countP inserts ≤ 1

def owning (primitives : Primitives) :
    Process.Protocol Nat World Call Answer where
  perform := perform primitives
  condition := Unrivalled
  invariant := OneOwner
  guarantee _ _ _ := True

variable {primitives : Primitives} {thread : Nat}
variable {before after : Moment} {request : Call} {answer : Answer request}

theorem perform_of_owning
    (performed : Performed (owning primitives) thread before request answer
      after) :
    perform primitives thread before.world request answer =
      some after.world :=
  performed.performed

theorem oneOwner_of_other
    (performed : Performed (owning primitives) thread before request answer
      after)
    (other : ∀ username hash, request ≠ .insertUser username hash) :
    OneOwner after := by
  have names := names_of_performed (perform_of_owning performed)
    fun username hash same =>
      other username hash (congrArg Process.Event.request same)
  have counts : after.past.countP inserts = before.past.countP inserts := by
    rw [performed.past, List.countP_append]
    cases request with
    | insertUser username hash => exact absurd rfl (other username hash)
    | _ => rfl
  constructor
  · rw [names, counts, performed.holds.counted]
  · rw [counts]
    exact performed.holds.once

/-- The thread counted no accounts, and those there are were inserted
since. -/
def Counted (thread : Nat) (moment : Moment) : Prop :=
  ∃ earlier later,
    moment.past = earlier ++ ⟨thread, .userCount, .ok 0⟩ :: later ∧
      ∀ name ∈ moment.world.users.names, ∃ other hash,
        (⟨other, .insertUser name hash, .ok ()⟩ : Event) ∈ later

theorem Counted.of_performed {other : Nat} (counted : Counted thread before)
    (performed : Performed (owning primitives) other before request answer
      after) :
    Counted thread after := by
  obtain ⟨earlier, later, past, inserted⟩ := counted
  refine ⟨earlier, later ++ [⟨other, request, answer⟩], ?_, ?_⟩
  · rw [performed.past, past, List.append_assoc, List.cons_append]
  · intro name named
    by_cases known : name ∈ before.world.users.names
    · obtain ⟨rival, hash, member⟩ := inserted name known
      exact ⟨rival, hash, List.mem_append_left _ member⟩
    · by_cases adds : ∃ username hash,
          (⟨other, request, answer⟩ : Event) =
            ⟨other, .insertUser username hash, .ok ()⟩
      · obtain ⟨username, hash, same⟩ := adds
        cases same
        rw [names_of_inserted (perform_of_owning performed)] at named
        rcases List.mem_append.mp named with old | new
        · exact absurd old known
        · obtain rfl := List.mem_singleton.mp new
          exact ⟨other, hash, List.mem_append_right _ List.mem_cons_self⟩
      · rw [names_of_performed (perform_of_owning performed)
          fun username hash same => adds ⟨username, hash, same⟩] at named
        exact absurd named known

theorem Counted.stable : (owning primitives).Stable thread (Counted thread) :=
  Process.Protocol.Stable.of_performed
    fun _ _ _ _ _ performed counted => counted.of_performed performed

/-- The thread's own account was inserted. -/
def Inserted (thread : Nat) (moment : Moment) : Prop :=
  ∃ event ∈ moment.past, event.thread = thread ∧ inserts event = true

theorem Inserted.of_performed {other : Nat} (inserted : Inserted thread before)
    (performed : Performed (owning primitives) other before request answer
      after) :
    Inserted thread after := by
  obtain ⟨event, member, own, adds⟩ := inserted
  rw [Inserted, performed.past]
  exact ⟨event, List.mem_append_left _ member, own, adds⟩

theorem Inserted.stable :
    (owning primitives).Stable thread (Inserted thread) :=
  Process.Protocol.Stable.of_performed
    fun _ _ _ _ _ performed inserted => inserted.of_performed performed

/-- A request that is signed in has inserted an account. -/
def Claims (thread : Nat) (response : Response) (moment : Moment) : Prop :=
  response.isSignedIn = true → Inserted thread moment

theorem Claims.stable (response : Response) :
    (owning primitives).Stable thread (Claims thread response) :=
  fun before after claims others signed =>
    Inserted.stable before after (claims signed) others

theorem unowned_stable :
    (owning primitives).Stable thread fun _ => True :=
  fun _ _ _ _ => trivial

theorem oneOwner_of_insert {username hash : String}
    {inserted : Except AccountError Unit} (counted : Counted thread before)
    (performed : Performed (owning primitives) thread before
      (.insertUser username hash) inserted after) :
    OneOwner after := by
  cases inserted with
  | error reason =>
    have names := names_of_performed (perform_of_owning performed)
      fun _ _ same => by cases same
    have counts : after.past.countP inserts = before.past.countP inserts := by
      rw [performed.past, List.countP_append]
      rfl
    constructor
    · rw [names, counts, performed.holds.counted]
    · rw [counts]
      exact performed.holds.once
  | ok _ =>
    have fresh := fresh_of_inserted (perform_of_owning performed)
    obtain ⟨earlier, later, past, since⟩ := counted
    have unowned : before.world.users.names = [] := by
      apply List.eq_nil_iff_forall_not_mem.mpr
      intro name named
      obtain ⟨other, theirs, member⟩ := since name named
      apply performed.meets username hash rfl
      refine ⟨earlier, later, other, name, theirs, past, member, ?_⟩
      rintro rfl
      exact fresh named
    have none_before : before.past.countP inserts = 0 := by
      rw [← performed.holds.counted, unowned]
      rfl
    have now : after.past.countP inserts = 1 := by
      rw [performed.past, List.countP_append, none_before]
      rfl
    constructor
    · rw [names_of_inserted (perform_of_owning performed), unowned, now]
      rfl
    · exact now.le

theorem safe_createAccount (username password : String) {moment : Moment}
    (counted : Counted thread moment) :
    Safe (owning primitives) thread
      (fun created after => created = .ok () → Inserted thread after)
      (createUser username password) moment := by
  apply Safe.proceed
  · exact fun reason _ => nofun
  · intro username _
    apply Safe.proceed
    · exact fun reason _ => nofun
    · intro _ _
      apply Safe.call Counted.stable counted
      intro before hash after counted performed
      refine ⟨oneOwner_of_other performed nofun, trivial, ?_⟩
      cases hash with
      | error reason => exact nofun
      | ok hash =>
        apply Safe.call Counted.stable (counted.of_performed performed)
        intro before inserted after counted performed
        refine ⟨oneOwner_of_insert counted performed, trivial, ?_⟩
        rintro rfl
        refine ⟨⟨thread, .insertUser username hash, .ok ()⟩, ?_, rfl, rfl⟩
        rw [performed.past]
        exact List.mem_append_right _ List.mem_cons_self

theorem safe_setup (form : SetupForm) (moment : Moment) :
    Safe (owning primitives) thread (Claims thread) (setupSubmit form)
      moment := by
  simp only [setupSubmit]
  split
  · rintro ⟨⟩
  · apply Safe.call unowned_stable trivial
    intro before opened after _ performed
    refine ⟨oneOwner_of_other performed (by simp), trivial, ?_⟩
    cases opened with
    | error reason => rintro ⟨⟩
    | ok _ =>
      apply Safe.call unowned_stable trivial
      intro before count after _ performed
      refine ⟨oneOwner_of_other performed (by simp), trivial, ?_⟩
      rcases count with reason | count
      · rintro ⟨⟩
      · cases count with
        | succ count => rintro ⟨⟩
        | zero =>
          have counted : Counted thread after := by
            refine ⟨before.past, [], performed.past, ?_⟩
            intro name named
            rw [names_of_performed (perform_of_owning performed)
                (by simp)]
              at named
            have counts := perform_of_owning performed
            simp only [perform] at counts
            split at counts
            · rename_i empty
              rw [UserTable.names,
                List.eq_nil_of_length_eq_zero empty.symm] at named
              cases named
            · cases counts
          apply (safe_createAccount _ _ counted).bind
          intro created after inserted
          rcases created with reason | _
          · cases reason <;> rintro ⟨⟩
          · apply Safe.call Inserted.stable (inserted rfl)
            rintro before ⟨now, drawn⟩ after inserted performed
            refine ⟨oneOwner_of_other performed (by simp), trivial, ?_⟩
            cases drawn with
            | error reason => rintro ⟨⟩
            | ok token => exact fun _ => inserted.of_performed performed

/-- A request of the setup page. -/
def Job.IsSetup : Job → Prop
  | .setup _ | .idle => True
  | _ => False

/-- In every run of setup requests on an instance with no account in which none
inserts after another did under a different name since it counted, there is at
most one account, and at most one request is signed in. -/
theorem one_owner {jobs : Nat → Job} (setups : ∀ thread, (jobs thread).IsSetup)
    (world : World) (unclaimed : world.users.rows = [])
    {trace : List Event} {reached : Process.Pool Nat World Call Answer Response}
    (run : Process.Run (perform primitives) Unrivalled
      (pool primitives world jobs) trace reached) :
    reached.world.users.rows.length ≤ 1 ∧
      ∀ first second one other, reached.threads first = .done one →
        reached.threads second = .done other → one.isSignedIn = true →
          other.isSignedIn = true → first = second := by
  have start : OneOwner ⟨world, []⟩ :=
    ⟨by simp [UserTable.names, unclaimed], Nat.zero_le 1⟩
  have sound : Process.Sound (owning primitives) Claims trace reached := by
    refine Process.Run.sound (fun _ => Claims.stable) run ⟨start, ?_⟩
    intro thread
    change Safe _ _ _ ((jobs thread).program primitives) _
    have setup := setups thread
    cases mine : jobs thread with
    | setup form => exact safe_setup form _
    | idle => rintro ⟨⟩
    | _ =>
      rw [mine] at setup
      exact setup.elim
  obtain ⟨counted, once⟩ := sound.holds
  constructor
  · have same : reached.world.users.rows.length =
        reached.world.users.names.length := by
      simp [UserTable.names]
    rw [same, counted]
    exact once
  · intro first second one other endsFirst endsSecond signed signedToo
    obtain ⟨event, member, rfl, adds⟩ := sound.finished endsFirst signed
    obtain ⟨event', member', rfl, adds'⟩ :=
      sound.finished endsSecond signedToo
    have same : event = event' := by
      by_contra different
      have both : [event, event'].Subperm (trace.filter inserts) := by
        apply List.subperm_of_subset
        · simpa using different
        · intro each one
          rcases List.mem_cons.mp one with rfl | last
          · exact List.mem_filter.mpr ⟨member, adds⟩
          · obtain rfl := List.mem_singleton.mp last
            exact List.mem_filter.mpr ⟨member', adds'⟩
      have long : 2 ≤ (trace.filter inserts).length := both.length_le
      rw [← List.countP_eq_length_filter] at long
      exact absurd (long.trans once) (by omega)
    rw [same]

/-- Two people fill in the setup page. -/
def twoSetups (second : String) : Nat → Job
  | 0 => .setup ⟨"sam", "correct horse", "correct horse"⟩
  | 1 => .setup ⟨second, "battery staple", "battery staple"⟩
  | _ => .idle

theorem twoSetups_setup (second : String) (thread : Nat) :
    (twoSetups second thread).IsSetup :=
  match thread with
  | 0 => trivial
  | 1 => trivial
  | _ + 2 => trivial

/-- Both have counted no accounts when the first one's is inserted. -/
def bothCount : List Event :=
  startsSetup 0 ++ startsSetup 1 ++
    createsAccount 0 "sam" "correct horse" ++
    [⟨0, .createSession "sam", (0, .ok "first")⟩,
      ⟨1, .hashPassword "battery staple", .ok "$battery staple"⟩]

/-- Under the name of the first, the second one's insert is refused. -/
def sameName : List Event :=
  bothCount ++ [⟨1, .insertUser "sam" "$battery staple",
    .error (.userExists "sam")⟩]

def otherName : List Event :=
  bothCount ++ [⟨1, .insertUser "alex" "$battery staple", .ok ()⟩,
    ⟨1, .createSession "alex", (0, .ok "second")⟩]

def ownersView (reached : Process.Pool Nat World Call Answer Response) :
    List String × Option Response × Option Response :=
  (reached.world.users.names, (reached.threads 0).result?,
    (reached.threads 1).result?)

/-- Whether an account of another name was inserted since the thread counted
none. -/
def rivalled (thread : Nat) (username : String) : List Event → Bool
  | [] => false
  | event :: later =>
    (event.thread = thread && (match event.request, event.answer with
        | .userCount, .ok 0 => true
        | _, _ => false) &&
      later.any fun other => match other.request, other.answer with
        | .insertUser name _, .ok _ => name ≠ username
        | _, _ => false) || rivalled thread username later

theorem rivalled_of_rivalled {username : String} {past : List Event}
    (rival : Rivalled thread username past) :
    rivalled thread username past = true := by
  obtain ⟨earlier, later, other, name, hash, rfl, member, different⟩ := rival
  induction earlier with
  | nil =>
    simp only [List.nil_append, rivalled, Bool.or_eq_true, Bool.and_eq_true]
    left
    refine ⟨⟨by simp, trivial⟩, List.any_eq_true.mpr ⟨_, member, ?_⟩⟩
    simpa using different
  | cons event earlier ih =>
    simp only [List.cons_append, rivalled, Bool.or_eq_true]
    exact .inr ih

def unrivalled (moment : Moment) (event : Event) : Bool :=
  match event.request with
  | .insertUser username _ => !rivalled event.thread username moment.past
  | _ => true

theorem unrivalled_of_check {moment : Moment} {event : Event}
    (checked : unrivalled moment event = true) : Unrivalled moment event := by
  intro username hash inserting rival
  simp [unrivalled, inserting, rivalled_of_rivalled rival] at checked

/-- The second request is sent to the login page. -/
theorem same_name_one_owner :
    ∃ reached, Process.Run (perform plainPrimitives) Unrivalled
        (pool plainPrimitives unclaimed (twoSetups "sam")) sameName reached ∧
      reached.world.users.names = ["sam"] ∧
        reached.world.users.rows.length ≤ 1 := by
  have replayed : (Process.replay (perform plainPrimitives) unrivalled []
      (pool plainPrimitives unclaimed (twoSetups "sam")) sameName).map
        ownersView =
      some (["sam"], some (.signedIn "first" "/wizard"),
        some (.redirect "/login")) := by
    decide +kernel
  obtain ⟨reached, run, viewed⟩ :=
    Process.Run.exists_of_replay (fun _ _ => unrivalled_of_check) replayed
  simp only [ownersView, Prod.mk.injEq] at viewed
  exact ⟨reached, run, viewed.1,
    (one_owner (twoSetups_setup "sam") unclaimed rfl run).1⟩

/-- Under another name the second request gets an account of its own, and is
signed in too. -/
theorem two_owners :
    ∃ reached, Process.Run (perform plainPrimitives) .always
        (pool plainPrimitives unclaimed (twoSetups "alex")) otherName
          reached ∧
      ¬ reached.world.users.rows.length ≤ 1 ∧
        reached.threads 0 = .done (.signedIn "first" "/wizard") ∧
          reached.threads 1 = .done (.signedIn "second" "/wizard") := by
  have replayed : (Process.replay (perform plainPrimitives) (fun _ _ => true)
      [] (pool plainPrimitives unclaimed (twoSetups "alex")) otherName).map
        ownersView =
      some (["sam", "alex"], some (.signedIn "first" "/wizard"),
        some (.signedIn "second" "/wizard")) := by
    decide +kernel
  obtain ⟨reached, run, viewed⟩ :=
    Process.Run.exists_of_replay (fun _ _ _ => trivial) replayed
  simp only [ownersView, Prod.mk.injEq] at viewed
  obtain ⟨names, first, second⟩ := viewed
  refine ⟨reached, run, ?_, Prog.eq_done_of_result? first,
    Prog.eq_done_of_result? second⟩
  have both : reached.world.users.rows.length = 2 := by
    rw [← List.length_map User.username]
    exact congrArg List.length names
  omega

end Accounts

end Sharerr
