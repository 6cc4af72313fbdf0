import Sharerr.Accounts.Rules

/-!
# Sessions name accounts

Every session and every waiting sign-in is for a name in the `users` table, as
long as the names of the accounts are stored the way they were typed: an
account is stored under its trimmed name, and signed in under the name of the
form.
-/

namespace Sharerr

namespace Accounts

open Process (Prog Performed Safe)

/-- What the sessions and the waiting sign-ins are for is in the table. -/
structure Named (world : World) : Prop where
  sessions : ∀ token session, world.sessions token = some session →
    session.username ∈ world.users.names
  pending : ∀ token entry, world.pending token = some entry →
    entry.username ∈ world.users.names

/-- An account is inserted under the name its form has. -/
def AsTyped (jobs : Nat → Job) : Process.Condition Nat World Call Answer :=
  fun _ event => ∀ form name hash, jobs event.thread = .setup form →
    event = ⟨event.thread, .insertUser name hash, .ok ()⟩ →
      name = form.username

variable {primitives : Primitives} {jobs : Nat → Job} {thread : Nat}
variable {before after : Moment} {request : Call} {answer : Answer request}

/-- A call keeps the sessions named, where it creates one or parks a sign-in
only for a name in the table. -/
theorem Named.step (named : Named before.world)
    (performed : perform primitives thread before.world request answer =
      some after.world)
    (known : ∀ username, request = .createSession username ∨
        request = .beginSecondFactor username →
      username ∈ before.world.users.names) :
    Named after.world := by
  constructor
  · intro token session found
    apply mem_names_of_performed performed
    rcases session_of_performed performed found with
      ⟨earlier, held, same⟩ | ⟨now, created⟩
    · rw [← same]
      exact named.sessions token earlier held
    · cases created
      exact known _ (.inl rfl)
  · intro token entry found
    apply mem_names_of_performed performed
    rcases pending_of_performed performed found with
      ⟨earlier, held, same⟩ | ⟨now, parked⟩
    · rw [← same]
      exact named.pending token earlier held
    · cases parked
      exact known _ (.inr rfl)

def naming (primitives : Primitives) (jobs : Nat → Job) :
    Process.Protocol Nat World Call Answer where
  perform := perform primitives
  condition := AsTyped jobs
  invariant moment := Named moment.world
  guarantee _ _ _ := True

theorem perform_of_naming
    (performed : Performed (naming primitives jobs) thread before request
      answer after) :
    perform primitives thread before.world request answer =
      some after.world :=
  performed.performed

/-- The name is in the table. -/
def Listed (username : String) (moment : Moment) : Prop :=
  username ∈ moment.world.users.names

variable {username : String} {moment : Moment}

theorem Listed.of_performed (listed : Listed username before)
    (performed : Performed (naming primitives jobs) thread before request
      answer after) :
    Listed username after :=
  mem_names_of_performed (perform_of_naming performed) listed

theorem Listed.stable :
    (naming primitives jobs).Stable thread (Listed username) :=
  Process.Protocol.Stable.of_performed
    fun _ _ _ _ _ performed listed => listed.of_performed performed

theorem anything_stable :
    (naming primitives jobs).Stable thread fun _ => True :=
  fun _ _ _ _ => trivial

/-- A call that neither creates a session nor parks a sign-in. -/
def Call.IsQuiet : Call → Prop
  | .createSession _ | .beginSecondFactor _ => False
  | _ => True

theorem named_of_quiet
    (performed : Performed (naming primitives jobs) thread before request
      answer after)
    (quiet : request.IsQuiet) : Named after.world := by
  apply Named.step performed.holds (perform_of_naming performed)
  rintro username (rfl | rfl)
  · exact quiet.elim
  · exact quiet.elim

/-- A program of quiet calls, under a property that no call disturbs. -/
theorem safe_of_quiet {α : Type} {program : Program α}
    {property : Moment → Prop}
    (kept : ∀ other before request answer after,
      Performed (naming primitives jobs) other before request answer after →
        property before → property after) (quiet : program.Only Call.IsQuiet)
    (holds : property moment) :
    Safe (naming primitives jobs) thread (fun _ after => property after)
      program moment := by
  apply Safe.of_only (Process.Protocol.Stable.of_performed kept) _ quiet holds
  intro before request answer after allowed held performed
  exact ⟨named_of_quiet performed allowed, trivial,
    kept _ _ _ _ _ performed held⟩

theorem quiet_of_plain (request : Call) (plain : request.IsPlain) :
    request.IsQuiet := by
  cases request with
  | createSession | beginSecondFactor => exact plain.elim
  | _ => trivial

theorem checkCode_quiet (username code : String) :
    (checkCode primitives username code).Only Call.IsQuiet :=
  checkCode_only username code trivial trivial fun _ => trivial

theorem changePassword_quiet (cookie : Option String)
    (form : ChangePasswordForm) :
    (changePassword cookie form).Only Call.IsQuiet :=
  changePassword_only quiet_of_plain cookie form fun _ => trivial

theorem enable_quiet (cookie : Option String) (form : EnableForm) :
    (enable primitives cookie form).Only Call.IsQuiet := by
  apply currentUser_only quiet_of_plain
  intro user
  cases user with
  | none => trivial
  | some user =>
    apply storeOr503_only quiet_of_plain
    split
    · trivial
    · apply passwordOk_only quiet_of_plain
      intro verified
      cases verified with
      | false => trivial
      | true =>
        refine ⟨trivial, fun now => ?_⟩
        dsimp only
        split
        · trivial
        · refine ⟨trivial, fun stored => ?_⟩
          rcases stored with reason | stored
          · trivial
          · cases stored with
            | false => trivial
            | true =>
              refine ⟨trivial, fun claimed => ?_⟩
              cases claimed with
              | error reason => trivial
              | ok _ => exact ⟨trivial, fun _ => trivial⟩

theorem disable_quiet (cookie : Option String) (form : DisableForm) :
    (disable primitives cookie form).Only Call.IsQuiet := by
  apply currentUser_only quiet_of_plain
  intro user
  cases user with
  | none => trivial
  | some user =>
    apply storeOr503_only quiet_of_plain
    apply passwordOk_only quiet_of_plain
    intro verified
    cases verified with
    | false => trivial
    | true =>
      apply (checkCode_quiet _ _).bind
      intro checked
      rcases checked with reason | checked
      · trivial
      · cases checked with
        | false => trivial
        | true =>
          refine ⟨trivial, fun cleared => ?_⟩
          cases cleared <;> trivial

theorem safe_signIn {destination : String} (listed : Listed username moment) :
    Safe (naming primitives jobs) thread (fun _ _ => True)
      (signIn username destination) moment := by
  apply Safe.call Listed.stable listed
  rintro before ⟨now, drawn⟩ after listed performed
  refine ⟨?_, trivial, ?_⟩
  · apply Named.step performed.holds (perform_of_naming performed)
    rintro other (same | same)
    · cases same
      exact listed
    · cases same
  · cases drawn <;> trivial

theorem safe_beginCode (listed : Listed username moment) :
    Safe (naming primitives jobs) thread (fun _ _ => True)
      (beginCode username) moment := by
  apply Safe.call Listed.stable listed
  rintro before ⟨now, drawn⟩ after listed performed
  refine ⟨?_, trivial, ?_⟩
  · apply Named.step performed.holds (perform_of_naming performed)
    rintro other (same | same)
    · cases same
    · cases same
      exact listed
  · cases drawn <;> trivial

theorem safe_storeOr503 {rest : Program Response} {property : Moment → Prop}
    (kept : ∀ other before request answer after,
      Performed (naming primitives jobs) other before request answer after →
        property before → property after) (holds : property moment)
    (safe : ∀ after, property after →
      Safe (naming primitives jobs) thread (fun _ _ => True) rest after) :
    Safe (naming primitives jobs) thread (fun _ _ => True)
      (storeOr503 rest) moment := by
  apply Safe.call (Process.Protocol.Stable.of_performed kept) holds
  intro before opened after held performed
  refine ⟨named_of_quiet performed trivial, trivial, ?_⟩
  cases opened with
  | error reason => trivial
  | ok _ => exact safe after (kept _ _ _ _ _ performed held)

theorem safe_verifyPassword {password : String} :
    Safe (naming primitives jobs) thread
      (fun verified after => verified = .ok true → Listed username after)
      (verifyPassword username password) moment := by
  apply Safe.call anything_stable trivial
  intro before selected after _ performed
  refine ⟨named_of_quiet performed trivial, trivial, ?_⟩
  cases selected with
  | error reason => exact nofun
  | ok stored =>
    cases stored with
    | none =>
      apply Safe.call anything_stable trivial
      intro before verified after _ performed
      refine ⟨named_of_quiet performed trivial, trivial, ?_⟩
      cases verified with
      | error reason => exact nofun
      | ok verified =>
        intro claimed
        simp at claimed
    | some hash =>
      have listed : Listed username before := by
        have read := perform_of_naming performed
        simp only [perform] at read
        split at read
        · rename_i found
          apply UserTable.user?_isSome_iff.mp
          rw [← Option.isSome_map, ← found]
          rfl
        · cases read
      apply Safe.call Listed.stable (listed.of_performed performed)
      intro before verified after listed performed
      refine ⟨named_of_quiet performed trivial, trivial, ?_⟩
      cases verified with
      | error reason => exact nofun
      | ok verified => exact fun _ => listed.of_performed performed

theorem safe_loginSubmit (form : LoginForm) (moment : Moment) :
    Safe (naming primitives jobs) thread (fun _ _ => True)
      (loginSubmit form) moment := by
  apply safe_storeOr503 (fun _ _ _ _ _ _ _ => trivial) trivial
  intro after _
  apply safe_verifyPassword.bind
  intro verified after right
  rcases verified with reason | verified
  · cases reason <;> trivial
  · cases verified with
    | false => trivial
    | true =>
      apply Safe.call Listed.stable (right rfl)
      intro before secret after listed performed
      refine ⟨named_of_quiet performed trivial, trivial, ?_⟩
      have still := listed.of_performed performed
      rcases secret with reason | secret
      · trivial
      · cases secret with
        | none => exact safe_signIn still
        | some secret => exact safe_beginCode still

theorem safe_codeSubmit (cookie : Option String) (typed : String)
    (moment : Moment) :
    Safe (naming primitives jobs) thread (fun _ _ => True)
      (codeSubmit primitives cookie typed) moment := by
  cases cookie with
  | none => trivial
  | some token =>
    apply Safe.call anything_stable trivial
    rintro before ⟨now, username⟩ after _ performed
    refine ⟨named_of_quiet performed trivial, trivial, ?_⟩
    cases username with
    | none => trivial
    | some username =>
      have listed : Listed username before := by
        have read := perform_of_naming performed
        simp only [perform] at read
        split at read
        · rename_i found
          obtain ⟨entry, waiting, named⟩ :=
            Option.map_eq_some_iff.mp found.symm
          rw [← named]
          exact performed.holds.pending token entry
            (Option.filter_eq_some_iff.mp waiting).1
        · cases read
      apply safe_storeOr503
        (fun _ _ _ _ _ performed held => Listed.of_performed held performed)
        (listed.of_performed performed)
      intro after listed
      apply Safe.bind (safe_of_quiet
        (fun _ _ _ _ _ performed held => Listed.of_performed held performed)
        (checkCode_quiet username typed) listed)
      intro checked after listed
      rcases checked with reason | checked
      · trivial
      · cases checked with
        | true =>
          apply Safe.call Listed.stable listed
          intro before answer after listed performed
          exact ⟨named_of_quiet performed trivial, trivial,
            safe_signIn (listed.of_performed performed)⟩
        | false =>
          apply Safe.call anything_stable trivial
          intro before left after _ performed
          refine ⟨named_of_quiet performed trivial, trivial, ?_⟩
          cases left <;> trivial

theorem safe_createUser {form : SetupForm} (mine : jobs thread = .setup form)
    (moment : Moment) :
    Safe (naming primitives jobs) thread
      (fun created after => created = .ok () → Listed form.username after)
      (createUser form.username form.password) moment := by
  apply Safe.proceed
  · exact fun reason _ => nofun
  · intro username _
    apply Safe.proceed
    · exact fun reason _ => nofun
    · intro _ _
      apply Safe.call anything_stable trivial
      intro before hash after _ performed
      refine ⟨named_of_quiet performed trivial, trivial, ?_⟩
      cases hash with
      | error reason => exact nofun
      | ok hash =>
        apply Safe.call anything_stable trivial
        intro before inserted after _ performed
        refine ⟨named_of_quiet performed trivial, trivial, ?_⟩
        rintro rfl
        have typed : username = form.username :=
          performed.meets form username hash mine rfl
        rw [← typed, Listed, names_of_inserted (perform_of_naming performed)]
        exact List.mem_append_right _ List.mem_cons_self

theorem safe_setupSubmit {form : SetupForm}
    (mine : jobs thread = .setup form) (moment : Moment) :
    Safe (naming primitives jobs) thread (fun _ _ => True)
      (setupSubmit form) moment := by
  simp only [setupSubmit]
  split
  · trivial
  · apply safe_storeOr503 (fun _ _ _ _ _ _ _ => trivial) trivial
    intro after _
    apply Safe.call anything_stable trivial
    intro before count after _ performed
    refine ⟨named_of_quiet performed trivial, trivial, ?_⟩
    rcases count with reason | count
    · trivial
    · cases count with
      | succ count => trivial
      | zero =>
        apply (safe_createUser mine after).bind
        intro created after listed
        rcases created with reason | _
        · cases reason <;> trivial
        · exact safe_signIn (listed rfl)

/-- In every run in which each account is stored under the name its form has,
every session is for an account that the store's lookups find. -/
theorem session_names_account (world : World)
    (unused : world.sessions = fun _ => none)
    (none_waiting : world.pending = fun _ => none)
    {trace : List Event} {reached : Process.Pool Nat World Call Answer Response}
    (run : Process.Run (perform primitives) (AsTyped jobs)
      (pool primitives world jobs) trace reached)
    {token : String} {session : Session}
    (live : reached.world.sessions token = some session) :
    (reached.world.users.user? session.username).isSome := by
  have start : Named world :=
    ⟨fun token session found => by simp [unused] at found,
      fun token entry found => by simp [none_waiting] at found⟩
  have sound : Process.Sound (naming primitives jobs) (fun _ _ _ => True)
      trace reached := by
    refine Process.Run.sound (fun _ _ => anything_stable) run ⟨start, ?_⟩
    intro thread
    change Safe _ _ _ ((jobs thread).program primitives) _
    cases mine : jobs thread with
    | setup form => exact safe_setupSubmit mine _
    | login form => exact safe_loginSubmit form _
    | code cookie typed => exact safe_codeSubmit cookie typed _
    | changePassword cookie form =>
      exact safe_of_quiet (fun _ _ _ _ _ _ _ => trivial)
        (changePassword_quiet cookie form) trivial
    | enable cookie form =>
      exact safe_of_quiet (fun _ _ _ _ _ _ _ => trivial)
        (enable_quiet cookie form) trivial
    | disable cookie form =>
      exact safe_of_quiet (fun _ _ _ _ _ _ _ => trivial)
        (disable_quiet cookie form) trivial
    | idle => trivial
  exact UserTable.user?_isSome_iff.mpr (sound.holds.sessions token session live)

def asTyped (jobs : Nat → Job) (event : Event) : Bool :=
  match jobs event.thread, event with
  | .setup form, ⟨_, .insertUser name _, .ok _⟩ => name = form.username
  | _, _ => true

theorem asTyped_of_check {event : Event} (checked : asTyped jobs event = true) :
    AsTyped jobs moment event := by
  intro form name hash mine inserted
  rw [inserted] at checked
  simpa only [asTyped, mine, decide_eq_true_eq] using checked

def setupForm (username : String) : SetupForm :=
  ⟨username, "correct horse", "correct horse"⟩

def oneSetup (username : String) : Nat → Job
  | 0 => .setup (setupForm username)
  | _ => .idle

/-- The session the setup leaves and the account it is for. -/
def setupView (reached : Process.Pool Nat World Call Answer Response) :
    Option String × Option String :=
  let name := (reached.world.sessions "token").map (·.username)
  (name, name.bind fun name =>
    (reached.world.users.user? name).map (·.username))

def setupEvents (username : String) : List Event :=
  startsSetup 0 ++ createsAccount 0 "sam" "correct horse" ++
    [⟨0, .createSession username, (0, .ok "token")⟩]

/-- The account is stored under the name of the form. -/
theorem sam_session_names_account :
    ∃ reached session, Process.Run (perform plainPrimitives)
        (AsTyped (oneSetup "sam"))
        (pool plainPrimitives unclaimed (oneSetup "sam"))
        (setupEvents "sam") reached ∧
      reached.world.sessions "token" = some session ∧
        (reached.world.users.user? session.username).isSome := by
  have replayed : (Process.replay (perform plainPrimitives)
      (fun _ event => asTyped (oneSetup "sam") event) []
        (pool plainPrimitives unclaimed (oneSetup "sam"))
        (setupEvents "sam")).map setupView =
      some (some "sam", some "sam") := by
    decide +kernel
  obtain ⟨reached, run, viewed⟩ :=
    Process.Run.exists_of_replay (fun _ _ => asTyped_of_check) replayed
  simp only [setupView, Prod.mk.injEq] at viewed
  obtain ⟨session, live, -⟩ := Option.map_eq_some_iff.mp viewed.1
  exact ⟨reached, session, run, live,
    session_names_account unclaimed rfl rfl run live⟩

/-- Sam's session is for a name with a blank, which no lookup finds. -/
theorem blank_session_names_none :
    ∃ reached session, Process.Run (perform plainPrimitives) .always
        (pool plainPrimitives unclaimed (oneSetup " sam"))
        (setupEvents " sam") reached ∧
      reached.world.sessions "token" = some session ∧
        ¬ (reached.world.users.user? session.username).isSome := by
  have replayed : (Process.replay (perform plainPrimitives)
      (fun _ _ => true) [] (pool plainPrimitives unclaimed (oneSetup " sam"))
        (setupEvents " sam")).map setupView =
      some (some " sam", none) := by
    decide +kernel
  obtain ⟨reached, run, viewed⟩ :=
    Process.Run.exists_of_replay (fun _ _ _ => trivial) replayed
  simp only [setupView, Prod.mk.injEq] at viewed
  obtain ⟨session, live, named⟩ := Option.map_eq_some_iff.mp viewed.1
  refine ⟨reached, session, run, live, ?_⟩
  have missing := viewed.2
  rw [viewed.1, Option.bind_some, Option.map_eq_none_iff] at missing
  rw [named, missing]
  exact Bool.false_ne_true

end Accounts

end Sharerr
