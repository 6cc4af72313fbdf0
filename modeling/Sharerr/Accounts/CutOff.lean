import Sharerr.Accounts.Rules
import Sharerr.Process.History

/-!
# What a changed credential cuts off

A change of the password, and turning the second factor on, sign out every
other session.  A sign-in whose check came before the change is cut off only if
it has its session by then, or ends without one: nothing is locked between the
check of a password and the session it leads to, and the sign-ins that wait for
a code are not signed out.
-/

namespace Sharerr

namespace Accounts

open Process (Prog since historyOf mem_historyOf)

/-- The requests this is about. -/
def Job.IsSignInOrChange : Job → Prop
  | .login _ | .code _ _ | .changePassword _ _ | .enable _ _ | .idle => True
  | _ => False

abbrev Step := (request : Call) × Answer request

/-- A step after which a sign-in neither creates a session nor parks. -/
def ends : Step → Bool
  | ⟨.openStore, .error _⟩ => true
  | ⟨.selectPasswordHash _, .error _⟩ => true
  | ⟨.verifyHash _ none, _⟩ => true
  | ⟨.verifyHash _ (some _), .error _⟩ => true
  | ⟨.verifyHash _ (some _), .ok false⟩ => true
  | ⟨.selectTotpSecret _, .error _⟩ => true
  | ⟨.claimTotpStep _ _, .error _⟩ => true
  | ⟨.failSecondFactor _, _⟩ => true
  | ⟨.createSession _, _⟩ => true
  | ⟨.beginSecondFactor _, _⟩ => true
  | _ => false

/-- The sign-in is not over. -/
def UnderWay (past : List Event) (thread : Nat) : Prop :=
  (historyOf thread past).any ends = false

/-- The thread has read the password hash of the account. -/
def ReadsHash (username : String) (past : List Event) (thread : Nat) : Prop :=
  ∃ answer, (⟨thread, .selectPasswordHash username, answer⟩ : Event) ∈ past

/-- The waiting sign-in was begun on a password read among these events. -/
def BegunOn (username token : String) (events : List Event) : Prop :=
  ∃ thread now, ReadsHash username events thread ∧
    (⟨thread, .beginSecondFactor username, (now, .ok token)⟩ : Event) ∈ events

/-- The session was created on a password read among these events, by the login
that read it or by a code for a sign-in that it had parked. -/
def SignedInOn (jobs : Nat → Job) (username token : String)
    (events : List Event) : Prop :=
  ∃ thread now,
    (⟨thread, .createSession username, (now, .ok token)⟩ : Event) ∈ events ∧
      (ReadsHash username events thread ∨
        ∃ parked typed, jobs thread = .code (some parked) typed ∧
          BegunOn username parked events)

/-- The session was created by a request whose code was accepted. -/
def SignedInByCode (jobs : Nat → Job) (username token : String)
    (events : List Event) : Prop :=
  ∃ thread now cookie typed step, jobs thread = .code cookie typed ∧
    (⟨thread, .claimTotpStep username step, .ok true⟩ : Event) ∈ events ∧
      (⟨thread, .createSession username, (now, .ok token)⟩ : Event) ∈ events

/-- The thread's change of a password. -/
def changes (thread : Nat) : Event → Bool
  | ⟨other, .updatePassword _ _, .ok true⟩ => other = thread
  | _ => false

/-- Every sign-in that is not over yet read the password among these events. -/
structure NoneStale (jobs : Nat → Job) (username : String)
    (events : List Event) (moment : Moment) : Prop where
  logins : ∀ thread form, jobs thread = .login form →
    ReadsHash username moment.past thread → UnderWay moment.past thread →
      ReadsHash username events thread
  waiting : ∀ token entry, moment.world.pending token = some entry →
    entry.username = username → BegunOn username token events
  codes : ∀ thread token typed now, jobs thread = .code (some token) typed →
    (⟨thread, .pendingUser token, (now, some username)⟩ : Event) ∈
        moment.past →
      UnderWay moment.past thread → BegunOn username token events

/-- Every login that found no second factor has its session. -/
def NoneUncoded (jobs : Nat → Job) (username : String) (moment : Moment) :
    Prop :=
  ∀ thread form, jobs thread = .login form →
    (⟨thread, .selectTotpSecret username, .ok none⟩ : Event) ∈ moment.past →
      ∃ answer, (⟨thread, .createSession username, answer⟩ : Event) ∈
        moment.past

/-- When a change signs the others out, no sign-in is under way that it should
have cut off. -/
structure Quiesced (jobs : Nat → Job) (moment : Moment) (event : Event) :
    Prop where
  changed : ∀ cookie form token username hash,
    jobs event.thread = .changePassword cookie form →
      event = ⟨event.thread, .revokeAllExcept token, ()⟩ →
        (⟨event.thread, .updatePassword username hash, .ok true⟩ : Event) ∈
            moment.past →
          NoneStale jobs username (since (changes event.thread) moment.past)
            moment
  enabled : ∀ cookie form token username,
    jobs event.thread = .enable cookie form →
      event = ⟨event.thread, .revokeAllExcept token, ()⟩ →
        (⟨event.thread, .setTotpSecret username (some form.secret),
            .ok true⟩ : Event) ∈ moment.past →
          NoneUncoded jobs username moment

/-- What a request has done before it asks this. -/
def Job.asks : Job → List Step → Call → Prop
  | .login _, seen, .createSession username =>
    (∃ answer, ⟨.selectPasswordHash username, answer⟩ ∈ seen) ∧
      ⟨.selectTotpSecret username, .ok none⟩ ∈ seen ∧ seen.any ends = false
  | .login _, seen, .beginSecondFactor username =>
    (∃ answer, ⟨.selectPasswordHash username, answer⟩ ∈ seen) ∧
      seen.any ends = false
  | .code cookie _, seen, .createSession username =>
    (∃ token now, cookie = some token ∧
      ⟨.pendingUser token, (now, some username)⟩ ∈ seen) ∧
      (∃ step, ⟨.claimTotpStep username step, .ok true⟩ ∈ seen) ∧
        seen.any ends = false
  | .changePassword cookie _, seen, .revokeAllExcept token =>
    cookie = some token ∧
      ∃ username hash, ⟨.updatePassword username hash, .ok true⟩ ∈ seen
  | .enable cookie form, seen, .revokeAllExcept token =>
    cookie = some token ∧
      ∃ username, ⟨.setTotpSecret username (some form.secret), .ok true⟩ ∈
        seen
  | .enable _ form, _, .setTotpSecret _ secret => secret = some form.secret
  | _, _, .createSession _ => False
  | _, _, .beginSecondFactor _ => False
  | _, _, .revokeAllExcept _ => False
  | _, _, .setTotpSecret _ _ => False
  | _, _, _ => True

/-- What a request that answers success has done. -/
def Job.leaves : Job → Response → List Step → Prop
  | .changePassword cookie _, response, seen =>
    response = .redirect "/settings?saved=account" →
      ∃ token, cookie = some token ∧ ⟨.revokeAllExcept token, ()⟩ ∈ seen
  | .enable cookie _, response, seen =>
    response = .redirect "/settings/account/totp?saved=on" →
      ∃ token, cookie = some token ∧ ⟨.revokeAllExcept token, ()⟩ ∈ seen
  | _, _, _ => True

variable {primitives : Primitives} {jobs : Nat → Job}

theorem loginSubmit_asks (form : LoginForm) :
    (loginSubmit form).Along (fun _ _ => True) (Job.login form).asks
      (Job.login form).leaves [] := by
  refine ⟨trivial, fun opened _ => ?_⟩
  cases opened with
  | error reason => trivial
  | ok _ =>
    refine ⟨trivial, fun stored _ => ?_⟩
    rcases stored with reason | stored
    · cases reason <;> trivial
    refine ⟨trivial, fun verified _ => ?_⟩
    rcases verified with reason | verified
    · cases reason <;> trivial
    cases stored with
    | none => cases verified <;> trivial
    | some hash =>
      cases verified with
      | false => trivial
      | true =>
        refine ⟨trivial, fun secret _ => ?_⟩
        rcases secret with reason | secret
        · trivial
        cases secret with
        | none =>
          refine ⟨⟨⟨.ok (some hash), ?_⟩, ?_, rfl⟩, fun answer _ => ?_⟩
          · simp
          · simp
          · obtain ⟨now, drawn⟩ := answer
            cases drawn <;> trivial
        | some secret =>
          refine ⟨⟨⟨.ok (some hash), ?_⟩, rfl⟩, fun answer _ => ?_⟩
          · simp
          · obtain ⟨now, drawn⟩ := answer
            cases drawn <;> trivial

theorem codeSubmit_asks (cookie : Option String) (typed : String) :
    (codeSubmit primitives cookie typed).Along (fun _ _ => True)
      (Job.code cookie typed).asks (Job.code cookie typed).leaves [] := by
  cases cookie with
  | none => trivial
  | some token =>
    refine ⟨trivial, fun answer _ => ?_⟩
    obtain ⟨now, username⟩ := answer
    cases username with
    | none => trivial
    | some username =>
      refine ⟨trivial, fun opened _ => ?_⟩
      cases opened with
      | error reason => trivial
      | ok _ =>
        refine ⟨trivial, fun secret _ => ?_⟩
        rcases secret with reason | secret
        · trivial
        cases secret with
        | none =>
          refine ⟨trivial, fun left _ => ?_⟩
          cases left <;> trivial
        | some secret =>
          refine ⟨trivial, fun read _ => ?_⟩
          cases verified : Totp.verify primitives.hotp secret typed
              read with
          | none =>
            simp only [verified]
            refine ⟨trivial, fun left _ => ?_⟩
            cases left <;> trivial
          | some step =>
            simp only [verified]
            refine ⟨trivial, fun claimed _ => ?_⟩
            rcases claimed with reason | claimed
            · trivial
            cases claimed with
            | false =>
              refine ⟨trivial, fun left _ => ?_⟩
              cases left <;> trivial
            | true =>
              refine ⟨trivial, fun _ _ => ?_⟩
              refine ⟨⟨⟨token, now, rfl, ?_⟩, ⟨step, ?_⟩, rfl⟩,
                fun answer _ => ?_⟩
              · simp
              · simp
              · obtain ⟨now, drawn⟩ := answer
                cases drawn <;> trivial

variable {job : Job} {seen : List Step}

theorem asks_of_plain (request : Call) (plain : request.IsPlain) :
    job.asks seen request := by
  cases request with
  | createSession | beginSecondFactor | revokeAllExcept | setTotpSecret =>
    exact plain.elim
  | _ => cases job <;> trivial

theorem along_of_plain {α : Type} {program : Program α}
    (only : program.Only Call.IsPlain) :
    program.Along (fun _ _ => True) job.asks (fun _ _ => True) seen := by
  apply Prog.Along.of_only _ only trivial
  intro seen request plain _
  exact ⟨asks_of_plain request plain, fun _ _ => trivial⟩

theorem setPassword_along (username password : String) :
    (setPassword username password).Along (fun _ _ => True) job.asks
      (fun changed seen => changed = .ok true →
        ∃ hash, ⟨.updatePassword username hash, .ok true⟩ ∈ seen) seen := by
  apply Prog.Along.proceed
  · exact fun reason _ => nofun
  · intro _ _
    refine ⟨asks_of_plain _ trivial, fun hash _ => ?_⟩
    cases hash with
    | error reason => exact nofun
    | ok hash =>
      refine ⟨asks_of_plain _ trivial, fun changed _ => ?_⟩
      rintro rfl
      exact ⟨hash, List.mem_append_right _ List.mem_cons_self⟩

theorem changePassword_asks (cookie : Option String)
    (form : ChangePasswordForm) :
    (changePassword cookie form).Along (fun _ _ => True)
      (Job.changePassword cookie form).asks
      (Job.changePassword cookie form).leaves [] := by
  cases cookie with
  | none => exact fun same => by simp at same
  | some token =>
    refine ⟨trivial, fun answer _ => ?_⟩
    obtain ⟨now, username⟩ := answer
    cases username with
    | none => exact fun same => by simp at same
    | some username =>
      dsimp only [Option.map_some]
      split
      · exact nofun
      refine ⟨trivial, fun opened _ => ?_⟩
      cases opened with
      | error reason => exact nofun
      | ok _ =>
        apply Prog.Along.bind (along_of_plain
          (verifyPassword_only (fun _ plain => plain) _ _))
        intro verified seen _
        rcases verified with reason | verified
        · cases reason <;> exact nofun
        cases verified with
        | false => exact nofun
        | true =>
          apply Prog.Along.bind (setPassword_along username _)
          intro changed seen updated
          rcases changed with reason | changed
          · cases reason <;> exact nofun
          cases changed with
          | false => exact nofun
          | true =>
            obtain ⟨hash, written⟩ := updated rfl
            refine ⟨⟨rfl, username, hash, written⟩, ?_⟩
            intro _ _ _
            exact ⟨token, rfl,
              List.mem_append_right _ List.mem_cons_self⟩

theorem enable_asks (cookie : Option String) (form : EnableForm) :
    (enable primitives cookie form).Along (fun _ _ => True)
      (Job.enable cookie form).asks (Job.enable cookie form).leaves [] := by
  cases cookie with
  | none => exact fun same => by simp at same
  | some token =>
    refine ⟨trivial, fun answer _ => ?_⟩
    obtain ⟨now, username⟩ := answer
    cases username with
    | none => exact fun same => by simp at same
    | some username =>
      refine ⟨trivial, fun opened _ => ?_⟩
      cases opened with
      | error reason => exact nofun
      | ok _ =>
        dsimp only
        split
        · exact fun same => by simp at same
        apply Prog.Along.bind (along_of_plain
          (verifyPassword_only (fun _ plain => plain) _ _))
        intro verified seen _
        rcases verified with reason | verified
        · cases reason <;> exact nofun
        cases verified with
        | false => exact nofun
        | true =>
          refine ⟨trivial, fun read _ => ?_⟩
          dsimp only
          split
          · exact nofun
          refine ⟨rfl, fun stored _ => ?_⟩
          rcases stored with reason | stored
          · exact nofun
          cases stored with
          | false => exact nofun
          | true =>
            refine ⟨trivial, fun claimed _ => ?_⟩
            rcases claimed with reason | claimed
            · exact nofun
            refine ⟨⟨rfl, username, by simp⟩, ?_⟩
            intro _ _ _
            exact ⟨token, rfl,
              List.mem_append_right _ List.mem_cons_self⟩

/-- Each of these requests asks what it may, and leaves what it says. -/
theorem along_of_job (signs : job.IsSignInOrChange) :
    (job.program primitives).Along (fun _ _ => True) job.asks job.leaves
      [] := by
  cases job with
  | login form => exact loginSubmit_asks form
  | code cookie typed => exact codeSubmit_asks cookie typed
  | changePassword cookie form => exact changePassword_asks cookie form
  | enable cookie form => exact enable_asks cookie form
  | idle => trivial
  | _ => exact signs.elim

section Monotone

variable {username token : String} {thread : Nat} {past events : List Event}
variable {event : Event}

theorem ReadsHash.mono (reads : ReadsHash username past thread)
    (more : past ⊆ events) : ReadsHash username events thread := by
  obtain ⟨answer, member⟩ := reads
  exact ⟨answer, more member⟩

theorem BegunOn.mono (begun : BegunOn username token past)
    (more : past ⊆ events) : BegunOn username token events := by
  obtain ⟨thread, now, reads, member⟩ := begun
  exact ⟨thread, now, reads.mono more, more member⟩

theorem SignedInOn.mono (signed : SignedInOn jobs username token past)
    (more : past ⊆ events) : SignedInOn jobs username token events := by
  obtain ⟨thread, now, member, reads | ⟨parked, typed, mine, begun⟩⟩ := signed
  · exact ⟨thread, now, more member, .inl (reads.mono more)⟩
  · exact ⟨thread, now, more member,
      .inr ⟨parked, typed, mine, begun.mono more⟩⟩

theorem SignedInByCode.mono (signed : SignedInByCode jobs username token past)
    (more : past ⊆ events) : SignedInByCode jobs username token events := by
  obtain ⟨thread, now, cookie, typed, step, mine, claimed, member⟩ := signed
  exact ⟨thread, now, cookie, typed, step, mine, more claimed, more member⟩

theorem UnderWay.before (going : UnderWay (past ++ [event]) thread) :
    UnderWay past thread := by
  rw [UnderWay, Process.historyOf_append] at going
  split at going
  · rw [List.any_append, Bool.or_eq_false_iff] at going
    exact going.1
  · exact going

end Monotone

/-- A step of a run of these requests. -/
structure Takes (primitives : Primitives) (jobs : Nat → Job)
    (before : Moment) (event : Event) (after : Moment) : Prop where
  past : after.past = before.past ++ [event]
  performed : perform primitives event.thread before.world event.request
    event.answer = some after.world
  asks : (jobs event.thread).asks (historyOf event.thread before.past)
    event.request
  meets : Quiesced jobs before event

variable {before after : Moment} {event : Event} {username token : String}
variable {later : List Event}

namespace Takes

variable (takes : Takes primitives jobs before event after)

include takes

theorem mem_past {other : Event} (member : other ∈ after.past) :
    other ∈ before.past ∨ other = event := by
  rw [takes.past] at member
  exact (List.mem_append.mp member).imp_right List.mem_singleton.mp

theorem underWay {thread : Nat} (going : UnderWay after.past thread) :
    UnderWay before.past thread := by
  rw [takes.past] at going
  exact going.before

/-- Who creates a session has read the password, or the name of a waiting
sign-in. -/
theorem creates {answer : Nat × Except String String}
    (same : event = ⟨event.thread, .createSession username, answer⟩) :
    UnderWay before.past event.thread ∧
      ((∃ form, jobs event.thread = .login form ∧
          ReadsHash username before.past event.thread ∧
            (⟨event.thread, .selectTotpSecret username, .ok none⟩ : Event) ∈
              before.past) ∨
        ∃ cookie typed now step, jobs event.thread = .code (some cookie) typed ∧
          (⟨event.thread, .pendingUser cookie, (now, some username)⟩ :
              Event) ∈ before.past ∧
            (⟨event.thread, .claimTotpStep username step, .ok true⟩ : Event) ∈
              before.past) := by
  have asks := takes.asks
  rw [congrArg Process.Event.request same] at asks
  cases mine : jobs event.thread with
  | login form =>
    rw [mine] at asks
    obtain ⟨⟨stored, read⟩, missing, going⟩ := asks
    exact ⟨going, .inl ⟨form, rfl, ⟨stored, mem_historyOf.mp read⟩,
      mem_historyOf.mp missing⟩⟩
  | code cookie typed =>
    rw [mine] at asks
    obtain ⟨⟨parked, now, rfl, found⟩, ⟨step, claimed⟩, going⟩ := asks
    exact ⟨going, .inr ⟨parked, typed, now, step, rfl,
      mem_historyOf.mp found, mem_historyOf.mp claimed⟩⟩
  | _ =>
    rw [mine] at asks
    exact asks.elim

/-- Who parks a sign-in has read the password. -/
theorem parks {answer : Nat × Except String String}
    (same : event = ⟨event.thread, .beginSecondFactor username, answer⟩) :
    ∃ form, jobs event.thread = .login form ∧
      ReadsHash username before.past event.thread ∧
        UnderWay before.past event.thread := by
  have asks := takes.asks
  rw [congrArg Process.Event.request same] at asks
  cases mine : jobs event.thread with
  | login form =>
    rw [mine] at asks
    obtain ⟨⟨stored, read⟩, going⟩ := asks
    exact ⟨form, rfl, ⟨stored, mem_historyOf.mp read⟩, going⟩
  | _ =>
    rw [mine] at asks
    exact asks.elim

end Takes

/-- While no sign-in is stale, none becomes so. -/
theorem NoneStale.step (fresh : NoneStale jobs username later before)
    (takes : Takes primitives jobs before event after) :
    NoneStale jobs username (later ++ [event]) after := by
  have more : later ⊆ later ++ [event] := List.subset_append_left _ _
  have last : event ∈ later ++ [event] :=
    List.mem_append_right _ List.mem_cons_self
  constructor
  · intro thread form mine reads going
    obtain ⟨answer, member⟩ := reads
    rcases takes.mem_past member with known | rfl
    · exact (fresh.logins thread form mine ⟨answer, known⟩
        (takes.underWay going)).mono more
    · exact ⟨answer, last⟩
  · intro token entry waits named
    rcases pending_of_performed takes.performed waits with
      ⟨earlier, held, same⟩ | ⟨now, begun⟩
    · exact (fresh.waiting token earlier held (same.trans named)).mono more
    · rw [named] at begun
      obtain ⟨form, mine, reads, going⟩ := takes.parks begun
      refine ⟨event.thread, now,
        (fresh.logins _ form mine reads going).mono more, ?_⟩
      rw [← begun]
      exact last
  · intro thread token typed now mine found going
    rcases takes.mem_past found with known | rfl
    · exact (fresh.codes thread token typed now mine known
        (takes.underWay going)).mono more
    · have read := takes.performed
      simp only [perform] at read
      split at read
      · rename_i known
        obtain ⟨entry, waits, named⟩ := Option.map_eq_some_iff.mp known.symm
        exact (fresh.waiting token entry (Option.filter_eq_some_iff.mp waits).1
          named).mono more
      · cases read

/-- Since a change of the password signed the others out, every session is its
own or on a later password. -/
structure Renewed (jobs : Nat → Job) (username token : String)
    (later : List Event) (moment : Moment) : Prop where
  fresh : NoneStale jobs username later moment
  sessions : ∀ other session, moment.world.sessions other = some session →
    session.username = username →
      other = token ∨ SignedInOn jobs username other later

theorem Renewed.step (renewed : Renewed jobs username token later before)
    (takes : Takes primitives jobs before event after) :
    Renewed jobs username token (later ++ [event]) after := by
  have more : later ⊆ later ++ [event] := List.subset_append_left _ _
  refine ⟨renewed.fresh.step takes, fun other session live named => ?_⟩
  rcases session_of_performed takes.performed live with
    ⟨earlier, held, same⟩ | ⟨now, created⟩
  · exact (renewed.sessions other earlier held (same.trans named)).imp_right
      fun signed => signed.mono more
  · right
    rw [named] at created
    refine ⟨event.thread, now, ?_, ?_⟩
    · rw [← created]
      exact List.mem_append_right _ List.mem_cons_self
    · obtain ⟨going, ⟨form, mine, reads, -⟩ |
        ⟨cookie, typed, then_, step, mine, found, -⟩⟩ := takes.creates created
      · exact .inl
          ((renewed.fresh.logins _ form mine reads going).mono more)
      · exact .inr ⟨cookie, typed, mine,
          (renewed.fresh.codes _ cookie typed then_ mine found going).mono
            more⟩

/-- Since an enabling signed the others out, every session is its own or came
by a code. -/
structure Enrolled (jobs : Nat → Job) (username token : String)
    (moment : Moment) : Prop where
  uncoded : NoneUncoded jobs username moment
  stored : (moment.world.secret username).isSome
  sessions : ∀ other session, moment.world.sessions other = some session →
    session.username = username →
      other = token ∨ SignedInByCode jobs username other moment.past

theorem stored_of_takes (takes : Takes primitives jobs before event after)
    (stored : (before.world.secret username).isSome) :
    (after.world.secret username).isSome := by
  obtain ⟨thread, request, answer⟩ := event
  have performed := takes.performed
  by_cases sets : ∃ secret, request = .setTotpSecret username secret
  · obtain ⟨secret, rfl⟩ := sets
    rcases answer with reason | changed
    · rw [effect_of_performed performed]
      exact stored
    · cases changed with
      | false => rwa [(factor_of_vain_set performed).secret]
      | true =>
        rw [(factor_of_set performed).1]
        have asks := takes.asks
        cases mine : jobs thread with
        | enable cookie form =>
          rw [mine] at asks
          obtain rfl : secret = some form.secret := asks
          rfl
        | _ =>
          rw [mine] at asks
          exact asks.elim
  · rwa [secret_of_performed performed fun secret same => sets ⟨secret, same⟩]

theorem Enrolled.step (enrolled : Enrolled jobs username token before)
    (takes : Takes primitives jobs before event after) :
    Enrolled jobs username token after := by
  have more : before.past ⊆ after.past := by
    rw [takes.past]
    exact List.subset_append_left _ _
  refine ⟨?_, stored_of_takes takes enrolled.stored, ?_⟩
  · intro thread form mine missing
    rcases takes.mem_past missing with known | rfl
    · obtain ⟨answer, created⟩ := enrolled.uncoded thread form mine known
      exact ⟨answer, more created⟩
    · have read := takes.performed
      simp only [perform] at read
      split at read
      · rename_i none_
        have stored := enrolled.stored
        rw [World.secret, ← none_] at stored
        cases stored
      · cases read
  · intro other session live named
    rcases session_of_performed takes.performed live with
      ⟨earlier, held, same⟩ | ⟨now, created⟩
    · exact (enrolled.sessions other earlier held (same.trans named)).imp_right
        fun signed => signed.mono more
    · right
      rw [named] at created
      obtain ⟨going, ⟨form, mine, -, missing⟩ |
        ⟨cookie, typed, then_, step, mine, -, claimed⟩⟩ :=
          takes.creates created
      · obtain ⟨answer, had⟩ := enrolled.uncoded _ form mine missing
        have ended : (historyOf event.thread before.past).any ends = true :=
          List.any_eq_true.mpr ⟨_, mem_historyOf.mpr had, rfl⟩
        rw [UnderWay, ended] at going
        cases going
      · refine ⟨event.thread, now, some cookie, typed, step, mine, more claimed,
          ?_⟩
        rw [← created, takes.past]
        exact List.mem_append_right _ List.mem_cons_self

/-- What a change that signed the others out leaves. -/
structure CutOff (jobs : Nat → Job) (moment : Moment) : Prop where
  changed : ∀ thread cookie form token,
    jobs thread = .changePassword cookie form →
      (⟨thread, .revokeAllExcept token, ()⟩ : Event) ∈ moment.past →
        ∃ username hash,
          (⟨thread, .updatePassword username hash, .ok true⟩ : Event) ∈
              moment.past ∧
            Renewed jobs username token (since (changes thread) moment.past)
              moment
  enabled : ∀ thread cookie form token,
    jobs thread = .enable cookie form →
      (⟨thread, .revokeAllExcept token, ()⟩ : Event) ∈ moment.past →
        ∃ username,
          (⟨thread, .setTotpSecret username (some form.secret), .ok true⟩ :
              Event) ∈ moment.past ∧
            Enrolled jobs username token moment
  stored : ∀ thread username secret,
    (⟨thread, .setTotpSecret username (some secret), .ok true⟩ : Event) ∈
        moment.past →
      (moment.world.secret username).isSome

theorem changes_of_mem {thread : Nat} {hash : String} {past : List Event}
    (written : (⟨thread, .updatePassword username hash, .ok true⟩ : Event) ∈
      past) :
    past.any (changes thread) = true :=
  List.any_eq_true.mpr ⟨_, written, by simp [changes]⟩

theorem kept_of_revoked {thread : Nat} {world next : World} {other : String}
    {session : Session}
    (performed : perform primitives thread world (.revokeAllExcept token) () =
      some next)
    (live : next.sessions other = some session) : other = token := by
  rw [effect_of_performed performed] at live
  simp only [effect, World.revokeAllExcept] at live
  split at live
  · assumption
  · cases live

theorem CutOff.step (holds : CutOff jobs before)
    (takes : Takes primitives jobs before event after) :
    CutOff jobs after := by
  have more : before.past ⊆ after.past := by
    rw [takes.past]
    exact List.subset_append_left _ _
  constructor
  · intro thread cookie form token mine revoked
    rcases takes.mem_past revoked with known | rfl
    · obtain ⟨username, hash, written, renewed⟩ :=
        holds.changed thread cookie form token mine known
      refine ⟨username, hash, more written, ?_⟩
      rw [takes.past, Process.since_append (changes_of_mem written)]
      exact renewed.step takes
    · have asks := takes.asks
      rw [mine] at asks
      obtain ⟨-, username, hash, member⟩ := asks
      have written := mem_historyOf.mp member
      have fresh := takes.meets.changed cookie form token username hash mine rfl
        written
      refine ⟨username, hash, more written, ?_⟩
      rw [takes.past, Process.since_append (changes_of_mem written)]
      exact ⟨fresh.step takes, fun other session live _ =>
        .inl (kept_of_revoked takes.performed live)⟩
  · intro thread cookie form token mine revoked
    rcases takes.mem_past revoked with known | rfl
    · obtain ⟨username, stored, enrolled⟩ :=
        holds.enabled thread cookie form token mine known
      exact ⟨username, more stored, enrolled.step takes⟩
    · have asks := takes.asks
      rw [mine] at asks
      obtain ⟨-, username, member⟩ := asks
      have written := mem_historyOf.mp member
      have uncoded := takes.meets.enabled cookie form token username mine rfl
        written
      refine ⟨username, more written, ?_,
        stored_of_takes takes (holds.stored thread username _ written), ?_⟩
      · intro other form mine missing
        rcases takes.mem_past missing with known | same
        · obtain ⟨answer, created⟩ := uncoded other form mine known
          exact ⟨answer, more created⟩
        · cases same
      · exact fun other session live _ =>
          .inl (kept_of_revoked takes.performed live)
  · intro thread username secret stored
    rcases takes.mem_past stored with known | rfl
    · exact stored_of_takes takes (holds.stored thread username secret known)
    · rw [(factor_of_set takes.performed).1]
      rfl

variable {trace : List Event} {world : World}
variable {reached : Process.Pool Nat World Call Answer Response}

theorem CutOff.of_run (signs : ∀ thread, (jobs thread).IsSignInOrChange)
    (run : Process.Run (perform primitives) (Quiesced jobs)
      (pool primitives world jobs) trace reached) :
    CutOff jobs ⟨reached.world, trace⟩ := by
  induction run with
  | start =>
    exact ⟨fun _ _ _ _ _ => nofun, fun _ _ _ _ _ => nofun,
      fun _ _ _ => nofun⟩
  | @step past pool thread request next answer world run waiting meets
      performed ih =>
      have along := run.along (fun _ _ _ _ _ _ => trivial)
        (along_of_job (signs thread))
      rw [waiting] at along
      exact ih.step ⟨rfl, performed, along.1, meets⟩

/-- In every run in which no sign-in is under way when a change of a credential
signs the others out, no session but the one that made the change is left on the
old password, or on no code. -/
theorem old_credential_cut_off
    (signs : ∀ thread, (jobs thread).IsSignInOrChange) (world : World)
    (run : Process.Run (perform primitives) (Quiesced jobs)
      (pool primitives world jobs) trace reached) (thread : Nat)
    (token : String) :
    (∀ form, jobs thread = .changePassword (some token) form →
        reached.threads thread = .done (.redirect "/settings?saved=account") →
          ∃ username hash,
            (⟨thread, .updatePassword username hash, .ok true⟩ : Event) ∈
                trace ∧
              ∀ other session, reached.world.sessions other = some session →
                session.username = username →
                  other = token ∨ SignedInOn jobs username other
                    (since (changes thread) trace)) ∧
      ∀ form, jobs thread = .enable (some token) form →
        reached.threads thread =
            .done (.redirect "/settings/account/totp?saved=on") →
          ∃ username,
            (⟨thread, .setTotpSecret username (some form.secret), .ok true⟩ :
                Event) ∈ trace ∧
              ∀ other session, reached.world.sessions other = some session →
                session.username = username →
                  other = token ∨ SignedInByCode jobs username other trace := by
  have holds := CutOff.of_run signs run
  have left := run.along (fun _ _ _ _ _ _ => trivial)
    (along_of_job (signs thread))
  constructor
  · intro form mine finished
    rw [finished, mine] at left
    obtain ⟨kept, same, revoked⟩ := left rfl
    cases same
    obtain ⟨username, hash, written, renewed⟩ := holds.changed thread _ form
      token mine (mem_historyOf.mp revoked)
    exact ⟨username, hash, written, renewed.sessions⟩
  · intro form mine finished
    rw [finished, mine] at left
    obtain ⟨kept, same, revoked⟩ := left rfl
    cases same
    obtain ⟨username, written, enrolled⟩ := holds.enabled thread _ form token
      mine (mem_historyOf.mp revoked)
    exact ⟨username, written, enrolled.sessions⟩

def newPassword : String := "battery staple"

/-- Sam changes the password while somebody logs in. -/
def changing (typed : String) : Nat → Job
  | 0 => .changePassword (some "cookie")
      ⟨knownPassword, newPassword, newPassword⟩
  | 1 => .login ⟨"sam", knownPassword⟩
  | 2 => .login ⟨"sam", typed⟩
  | _ => .idle

def enabling : Nat → Job
  | 0 => .enable (some "cookie") ⟨knownSecret, "287082", knownPassword⟩
  | 1 => .login ⟨"sam", knownPassword⟩
  | _ => .idle

theorem changing_signs (typed : String) (thread : Nat) :
    (changing typed thread).IsSignInOrChange :=
  match thread with
  | 0 | 1 | 2 => trivial
  | _ + 3 => trivial

def changesPassword (thread : Nat) : List Event :=
  ⟨thread, .touchSession "cookie", (0, some "sam")⟩ ::
    checksPassword thread ++
    [⟨thread, .hashPassword newPassword, .ok ("$" ++ newPassword)⟩,
      ⟨thread, .updatePassword "sam" ("$" ++ newPassword), .ok true⟩,
      ⟨thread, .revokeAllExcept "cookie", ()⟩]

/-- A login goes on to a session. -/
def entersSession (thread : Nat) (token : String) : List Event :=
  [⟨thread, .selectTotpSecret "sam", .ok none⟩,
    ⟨thread, .createSession "sam", (0, .ok token)⟩]

/-- The first login is over before the change, the second reads the new
password. -/
def changeBetween : List Event :=
  checksPassword 1 ++ entersSession 1 "first" ++ changesPassword 0 ++
    [⟨2, .openStore, .ok ()⟩,
      ⟨2, .selectPasswordHash "sam", .ok (some ("$" ++ newPassword))⟩,
      ⟨2, .verifyHash newPassword (some ("$" ++ newPassword)), .ok true⟩] ++
    entersSession 2 "second"

/-- The login has its password checked before the change. -/
def changeAcross : List Event :=
  checksPassword 1 ++ changesPassword 0 ++ entersSession 1 "late"

/-- The login learns that there is no second factor before there is one. -/
def enableAcross : List Event :=
  checksPassword 1 ++ [⟨1, .selectTotpSecret "sam", .ok none⟩] ++
    startsEnabling 0 ++ endsEnabling 0 true ++
    [⟨1, .createSession "sam", (0, .ok "late")⟩]

/-- The sign-ins among these events are over, and nobody parks one. -/
def quiesced (jobs : Nat → Job) (moment : Moment) : Event → Bool
  | ⟨_, .beginSecondFactor _, _⟩ => false
  | ⟨thread, .revokeAllExcept _, _⟩ =>
    !(jobs thread matches .enable _ _) &&
      moment.past.all fun event =>
        match event.request with
        | .selectPasswordHash _ =>
          !(jobs event.thread matches .login _) ||
            (historyOf event.thread moment.past).any ends
        | .pendingUser _ => (historyOf event.thread moment.past).any ends
        | _ => true
  | _ => true

theorem quiesced_of_check {moment : Moment}
    (checked : quiesced jobs moment event = true)
    (none_waiting : moment.world.pending = fun _ => none) :
    Quiesced jobs moment event := by
  constructor
  · intro cookie form token username hash mine same _
    rw [same] at checked
    simp only [quiesced, Bool.and_eq_true, List.all_eq_true] at checked
    obtain ⟨-, endings⟩ := checked
    constructor
    · rintro other login theirs ⟨answer, read⟩ going
      have ended := endings _ read
      rw [UnderWay] at going
      simp [theirs, going] at ended
    · intro token entry waits
      rw [none_waiting] at waits
      cases waits
    · intro other token typed now _ found going
      have ended := endings _ found
      rw [UnderWay] at going
      simp [going] at ended
  · intro cookie form token username mine same
    rw [same] at checked
    simp [quiesced, mine] at checked

theorem none_waiting_of_check {moment : Moment} {next : World}
    (checked : quiesced jobs moment event = true)
    (performed : perform primitives event.thread moment.world event.request
      event.answer = some next)
    (none_waiting : moment.world.pending = fun _ => none) :
    next.pending = fun _ => none := by
  funext token
  cases waits : next.pending token with
  | none => rfl
  | some entry =>
    rcases pending_of_performed performed waits with
      ⟨earlier, held, -⟩ | ⟨now, begun⟩
    · rw [none_waiting] at held
      cases held
    · change quiesced jobs moment
        ⟨event.thread, event.request, event.answer⟩ = true at checked
      rw [begun] at checked
      cases checked

def sessionsView (reached : Process.Pool Nat World Call Answer Response) :
    Option Response × Option String × Option String :=
  ((reached.threads 0).result?,
    (reached.world.sessions "late").map (·.username),
    (reached.world.sessions "second").map (·.username))

/-- A login that is over is signed out, and one on the new password is let
in. -/
theorem change_between_logins :
    ∃ reached, Process.Run (perform plainPrimitives)
        (Quiesced (changing newPassword))
        (pool plainPrimitives (claimedBySam none) (changing newPassword))
        changeBetween reached ∧
      (reached.world.sessions "second").isSome ∧
        ∃ username hash,
          (⟨0, .updatePassword username hash, .ok true⟩ : Event) ∈
              changeBetween ∧
            ∀ other session, reached.world.sessions other = some session →
              session.username = username →
                other = "cookie" ∨ SignedInOn (changing newPassword) username
                  other (since (changes 0) changeBetween) := by
  have replayed : (Process.replay (perform plainPrimitives)
      (quiesced (changing newPassword)) []
      (pool plainPrimitives (claimedBySam none) (changing newPassword))
        changeBetween).map sessionsView =
      some (some (.redirect "/settings?saved=account"), none, some "sam") := by
    decide +kernel
  obtain ⟨reached, checked, viewed⟩ :=
    Process.Run.exists_of_replay (fun _ _ passed => passed) replayed
  obtain ⟨run, -⟩ := checked.under
    (fun world => world.pending = fun _ => none)
    (fun _ _ _ passed performed => none_waiting_of_check passed performed)
    (fun _ _ passed => quiesced_of_check passed) rfl
  simp only [sessionsView, Prod.mk.injEq] at viewed
  obtain ⟨finished, -, live⟩ := viewed
  refine ⟨reached, run, ?_, ?_⟩
  · rw [← Option.isSome_map, live]
    rfl
  · exact (old_credential_cut_off (changing_signs newPassword)
      (claimedBySam none) run 0 "cookie").1 _ rfl
        (Prog.eq_done_of_result? finished)

/-- A login on the old password has a session after the change, and one without
a code has one after the enabling. -/
theorem late_session_survives :
    (∃ reached, Process.Run (perform plainPrimitives) .always
        (pool plainPrimitives (claimedBySam none) (changing newPassword))
        changeAcross reached ∧
      reached.threads 0 = .done (.redirect "/settings?saved=account") ∧
        (reached.world.sessions "late").map (·.username) = some "sam" ∧
          ¬ SignedInOn (changing newPassword) "sam" "late"
            (since (changes 0) changeAcross)) ∧
      ∃ reached, Process.Run (perform plainPrimitives) .always
          (pool plainPrimitives (claimedBySam none) enabling) enableAcross
            reached ∧
        reached.threads 0 =
            .done (.redirect "/settings/account/totp?saved=on") ∧
          (reached.world.sessions "late").map (·.username) = some "sam" ∧
            ¬ SignedInByCode enabling "sam" "late" enableAcross := by
  constructor
  · have replayed : (Process.replay (perform plainPrimitives)
        (fun _ _ => true) []
        (pool plainPrimitives (claimedBySam none) (changing newPassword))
          changeAcross).map sessionsView =
        some (some (.redirect "/settings?saved=account"), some "sam",
          none) := by
      decide +kernel
    obtain ⟨reached, run, viewed⟩ :=
      Process.Run.exists_of_replay (fun _ _ _ => trivial) replayed
    simp only [sessionsView, Prod.mk.injEq] at viewed
    refine ⟨reached, run, Prog.eq_done_of_result? viewed.1, viewed.2.1, ?_⟩
    have rest : since (changes 0) changeAcross =
        ⟨0, .revokeAllExcept "cookie", ()⟩ :: entersSession 1 "late" := rfl
    rw [rest]
    rintro ⟨thread, now, -, ⟨answer, read⟩ |
      ⟨parked, typed, -, other, then_, -, begun⟩⟩
    · simp [entersSession] at read
    · simp [entersSession] at begun
  · have replayed : (Process.replay (perform plainPrimitives)
        (fun _ _ => true) []
        (pool plainPrimitives (claimedBySam none) enabling)
          enableAcross).map sessionsView =
        some (some (.redirect "/settings/account/totp?saved=on"), some "sam",
          none) := by
      decide +kernel
    obtain ⟨reached, run, viewed⟩ :=
      Process.Run.exists_of_replay (fun _ _ _ => trivial) replayed
    simp only [sessionsView, Prod.mk.injEq] at viewed
    refine ⟨reached, run, Prog.eq_done_of_result? viewed.1, viewed.2.1, ?_⟩
    rintro ⟨thread, now, cookie, typed, step, mine, -, -⟩
    match thread with
    | 0 => cases mine
    | 1 => cases mine
    | _ + 2 => cases mine

end Accounts

end Sharerr
