import Sharerr.Accounts.Handlers
import Sharerr.Process.Safety

/-!
# What one call does to the accounts and the sessions

An account is never deleted and never renamed, so a name once found in the
table is found there ever after.
-/

namespace Sharerr

namespace Accounts

open Process (Prog)

namespace UserTable

variable {table : UserTable} {username : String}

@[simp] theorem names_insert (user : User)
    (fresh : user.username ∉ table.names) :
    (table.insert user fresh).names = table.names ++ [user.username] := by
  simp [names, insert]

@[simp] theorem names_update (write : User → User)
    (keeps : ∀ user, (write user).username = user.username) :
    (table.update username write keeps).names = table.names :=
  Keyed.map_modify keeps

theorem user?_isSome_iff :
    (table.user? username).isSome ↔ username ∈ table.names := by
  have absent : Keyed.find User.username table.rows username = none ↔
      username ∉ table.rows.map User.username :=
    Keyed.find_eq_none_iff
  rw [← Option.ne_none_iff_isSome, ne_eq, user?, absent, not_not]
  rfl

theorem user?_update (write : User → User)
    (keeps : ∀ user, (write user).username = user.username)
    (other : String) :
    (table.update username write keeps).user? other =
      if other = username then (table.user? other).map write
      else table.user? other :=
  Keyed.find_modify _ _ _ _ _ keeps

theorem user?_insert_new (user : User)
    (fresh : user.username ∉ table.names) :
    (table.insert user fresh).user? user.username = some user :=
  Keyed.find_append_new fresh

theorem user?_insert_old {user : User}
    (fresh : user.username ∉ table.names) {other : String}
    (different : other ≠ user.username) :
    (table.insert user fresh).user? other = table.user? other :=
  Keyed.find_append_old different

end UserTable

section Perform

variable {primitives : Primitives} {thread : Nat} {world after : World}
variable {request : Call} {answer : Answer request}

/-- The world after a call that got its answer. -/
def effect (world : World) : (request : Call) → Answer request → World
  | .insertUser username hash, .ok _ =>
    if fresh : username ∉ world.users.names then
      { world with
        users := world.users.insert ⟨username, hash, none, none⟩ fresh }
    else world
  | .updatePassword username hash, .ok _ =>
    { world with users := world.users.setPassword username hash }
  | .setTotpSecret username secret, .ok _ =>
    { world with users := world.users.setTotpSecret username secret }
  | .claimTotpStep username step, .ok true =>
    { world with users := world.users.setLastStep username step }
  | .createSession username, (now, .ok token) =>
    world.createSession token username now
  | .touchSession token, (now, _) => world.touch token now
  | .revokeAllExcept token, _ => world.revokeAllExcept token
  | .beginSecondFactor username, (now, .ok token) =>
    world.beginSecondFactor token username now
  | .failSecondFactor token, _ => (world.failSecondFactor token).2
  | .finishSecondFactor token, _ => world.finishSecondFactor token
  | _, _ => world

theorem effect_of_performed
    (performed : perform primitives thread world request answer =
      some after) :
    after = effect world request answer := by
  cases request with
  | openStore | nowEpoch | revokeAllExcept | finishSecondFactor =>
    cases performed
    rfl
  | insertUser username hash =>
    cases answer with
    | ok _ =>
      simp only [perform] at performed
      split at performed
      · rename_i fresh
        cases performed
        simp [effect, fresh]
      · cases performed
    | error reason =>
      cases reason with
      | userExists name =>
        simp only [perform] at performed
        split at performed
        · cases performed
          rfl
        · cases performed
      | _ =>
        cases performed
        rfl
  | verifyHash password stored =>
    cases stored with
    | none =>
      cases performed
      rfl
    | some stored =>
      cases answer with
      | error reason =>
        cases performed
        rfl
      | ok verified =>
        simp only [perform] at performed
        split at performed
        · cases performed
          rfl
        · cases performed
  | claimTotpStep username step =>
    cases answer with
    | error reason =>
      cases performed
      rfl
    | ok claimed =>
      simp only [perform] at performed
      split at performed
      · cases claimed with
        | true =>
          cases performed
          rfl
        | false =>
          cases performed
          rfl
      · cases performed
  | createSession username | beginSecondFactor username =>
    obtain ⟨now, drawn⟩ := answer
    cases drawn with
    | error reason =>
      cases performed
      rfl
    | ok token =>
      simp only [perform] at performed
      split at performed
      · cases performed
      · cases performed
        rfl
  | touchSession token | pendingUser token =>
    obtain ⟨now, username⟩ := answer
    simp only [perform] at performed
    split at performed
    · cases performed
      rfl
    · cases performed
  | failSecondFactor token =>
    simp only [perform] at performed
    split at performed
    · cases performed
      rfl
    · cases performed
  | _ =>
    cases answer with
    | error reason =>
      cases performed
      rfl
    | ok value =>
      simp only [perform] at performed
      split at performed
      · cases performed
        rfl
      · cases performed

variable {username : String} {step : Int}

theorem fresh_of_inserted {hash : String}
    (performed : perform primitives thread world (.insertUser username hash)
      (.ok ()) = some after) :
    username ∉ world.users.names := by
  simp only [perform] at performed
  split at performed
  · assumption
  · cases performed

/-- A call that is not about the accounts. -/
def Call.LeavesUsers : Call → Prop
  | .insertUser _ _ | .updatePassword _ _ | .setTotpSecret _ _ => False
  | .claimTotpStep _ _ => False
  | _ => True

/-- A call that is not about the sessions. -/
def Call.LeavesSessions : Call → Prop
  | .createSession _ | .touchSession _ | .revokeAllExcept _ => False
  | _ => True

/-- A call that is not about the waiting sign-ins. -/
def Call.LeavesPending : Call → Prop
  | .beginSecondFactor _ | .failSecondFactor _ | .finishSecondFactor _ => False
  | _ => True

theorem effect_other (request : Call) (answer : Answer request) :
    (request.LeavesUsers →
        (effect world request answer).users = world.users) ∧
      (request.LeavesSessions →
        (effect world request answer).sessions = world.sessions) ∧
        (request.LeavesPending →
          (effect world request answer).pending = world.pending) := by
  cases request with
  | insertUser username hash =>
    cases answer with
    | error reason => exact ⟨False.elim, fun _ => rfl, fun _ => rfl⟩
    | ok _ =>
      simp only [effect]
      split <;> exact ⟨False.elim, fun _ => rfl, fun _ => rfl⟩
  | updatePassword | setTotpSecret =>
    cases answer <;> exact ⟨False.elim, fun _ => rfl, fun _ => rfl⟩
  | claimTotpStep =>
    rcases answer with reason | _ | _ <;>
      exact ⟨False.elim, fun _ => rfl, fun _ => rfl⟩
  | createSession =>
    obtain ⟨now, reason | token⟩ := answer <;>
      exact ⟨fun _ => rfl, False.elim, fun _ => rfl⟩
  | touchSession | revokeAllExcept =>
    exact ⟨fun _ => rfl, False.elim, fun _ => rfl⟩
  | beginSecondFactor =>
    obtain ⟨now, reason | token⟩ := answer <;>
      exact ⟨fun _ => rfl, fun _ => rfl, False.elim⟩
  | failSecondFactor token =>
    simp only [effect, World.failSecondFactor]
    split
    · exact ⟨fun _ => rfl, fun _ => rfl, False.elim⟩
    · split <;> exact ⟨fun _ => rfl, fun _ => rfl, False.elim⟩
  | finishSecondFactor => exact ⟨fun _ => rfl, fun _ => rfl, False.elim⟩
  | _ => exact ⟨fun _ => rfl, fun _ => rfl, fun _ => rfl⟩

theorem users_of_other
    (performed : perform primitives thread world request answer = some after)
    (leaves : request.LeavesUsers) : after.users = world.users := by
  rw [effect_of_performed performed]
  exact (effect_other request answer).1 leaves

theorem sessions_of_other
    (performed : perform primitives thread world request answer = some after)
    (leaves : request.LeavesSessions) : after.sessions = world.sessions := by
  rw [effect_of_performed performed]
  exact (effect_other request answer).2.1 leaves

theorem pending_of_other
    (performed : perform primitives thread world request answer = some after)
    (leaves : request.LeavesPending) : after.pending = world.pending := by
  rw [effect_of_performed performed]
  exact (effect_other request answer).2.2 leaves

/-- Unless it inserts an account, a call leaves the names as they are. -/
theorem names_of_performed
    (performed : perform primitives thread world request answer = some after)
    (other : ∀ username hash, (⟨thread, request, answer⟩ : Event) ≠
      ⟨thread, .insertUser username hash, .ok ()⟩) :
    after.users.names = world.users.names := by
  cases request with
  | insertUser username hash =>
    rw [effect_of_performed performed]
    cases answer with
    | error reason => rfl
    | ok _ => exact absurd rfl (other username hash)
  | updatePassword | setTotpSecret =>
    rw [effect_of_performed performed]
    cases answer with
    | error reason => rfl
    | ok _ =>
      simp only [effect, UserTable.setPassword, UserTable.setTotpSecret,
        UserTable.names_update]
  | claimTotpStep =>
    rw [effect_of_performed performed]
    cases answer with
    | error reason => rfl
    | ok claimed =>
      cases claimed with
      | false => rfl
      | true =>
        simp only [effect, UserTable.setLastStep,
          UserTable.names_update]
  | _ => rw [users_of_other performed trivial]

theorem names_of_inserted {hash : String}
    (performed : perform primitives thread world (.insertUser username hash)
      (.ok ()) = some after) :
    after.users.names = world.users.names ++ [username] := by
  have fresh := fresh_of_inserted performed
  rw [effect_of_performed performed]
  simp only [effect, dif_pos fresh, UserTable.names_insert]

theorem mem_names_of_performed
    (performed : perform primitives thread world request answer = some after)
    (named : username ∈ world.users.names) :
    username ∈ after.users.names := by
  by_cases inserted : ∃ other hash, (⟨thread, request, answer⟩ : Event) =
      ⟨thread, .insertUser other hash, .ok ()⟩
  · obtain ⟨other, hash, same⟩ := inserted
    cases same
    rw [names_of_inserted performed]
    exact List.mem_append_left _ named
  · rw [names_of_performed performed fun other hash same =>
      inserted ⟨other, hash, same⟩]
    exact named

namespace World

/-- The secret of an account that has a second factor. -/
def secret (world : World) (username : String) : Option String :=
  (world.users.user? username).bind (·.totpSecret)

/-- The last step the replay guard has seen. -/
def lastStep (world : World) (username : String) : Option Int :=
  (world.users.user? username).bind (·.totpLastStep)

end World

/-- What the second factor of an account is, and what was spent of it. -/
structure SameFactor (world after : World) (username : String) : Prop where
  secret : after.secret username = world.secret username
  lastStep : after.lastStep username = world.lastStep username

theorem SameFactor.of_users (same : after.users = world.users) :
    SameFactor world after username := by
  constructor
  · rw [World.secret, World.secret, same]
  · rw [World.lastStep, World.lastStep, same]

/-- An update that writes another column leaves the factor alone, and so does
one of another row. -/
theorem SameFactor.of_update {row : String} (write : User → User)
    (keeps : ∀ user, (write user).username = user.username)
    (elsewhere : username = row → ∀ user,
      (write user).totpSecret = user.totpSecret ∧
        (write user).totpLastStep = user.totpLastStep) :
    SameFactor world
      { world with users := world.users.update row write keeps }
      username := by
  by_cases same : username = row
  · have columns := elsewhere same
    constructor
    · simp only [World.secret, UserTable.user?_update, if_pos same,
        Option.bind_map, Function.comp_def, (columns _).1]
    · simp only [World.lastStep, UserTable.user?_update, if_pos same,
        Option.bind_map, Function.comp_def, (columns _).2]
  · constructor
    · simp only [World.secret, UserTable.user?_update, if_neg same]
    · simp only [World.lastStep, UserTable.user?_update, if_neg same]

theorem SameFactor.of_insert {user : User}
    (fresh : user.username ∉ world.users.names)
    (secret : user.totpSecret = none) (lastStep : user.totpLastStep = none) :
    SameFactor world { world with users := world.users.insert user fresh }
      username := by
  by_cases same : username = user.username
  · subst same
    have absent : world.users.user? user.username = none :=
      Keyed.find_eq_none_iff.mpr fresh
    constructor
    · simp only [World.secret, UserTable.user?_insert_new, absent,
        Option.bind_some, Option.bind_none, secret]
    · simp only [World.lastStep, UserTable.user?_insert_new, absent,
        Option.bind_some, Option.bind_none, lastStep]
  · constructor
    · simp only [World.secret, UserTable.user?_insert_old fresh same]
    · simp only [World.lastStep, UserTable.user?_insert_old fresh same]

/-- A call that is not about the second factor leaves it alone. -/
theorem factor_of_performed
    (performed : perform primitives thread world request answer = some after)
    (stored : ∀ secret, request ≠ .setTotpSecret username secret)
    (claimed : ∀ step, request ≠ .claimTotpStep username step) :
    SameFactor world after username := by
  have effected := effect_of_performed performed
  cases request with
  | insertUser name hash =>
    rw [effected]
    cases answer with
    | error reason => exact .of_users rfl
    | ok _ =>
      simp only [effect]
      split
      · rename_i fresh
        exact .of_insert fresh rfl rfl
      · exact .of_users rfl
  | updatePassword name hash =>
    rw [effected]
    cases answer with
    | error reason => exact .of_users rfl
    | ok _ => exact .of_update _ _ fun _ _ => ⟨rfl, rfl⟩
  | setTotpSecret name secret =>
    rw [effected]
    cases answer with
    | error reason => exact .of_users rfl
    | ok _ =>
      apply SameFactor.of_update
      rintro rfl
      exact absurd rfl (stored secret)
  | claimTotpStep name step =>
    rw [effected]
    cases answer with
    | error reason => exact .of_users rfl
    | ok won =>
      cases won with
      | false => exact .of_users rfl
      | true =>
        apply SameFactor.of_update
        rintro rfl
        exact absurd rfl (claimed step)
  | _ => exact .of_users (users_of_other performed trivial)

theorem factor_of_set {secret : Option String}
    (performed : perform primitives thread world
      (.setTotpSecret username secret) (.ok true) = some after) :
    after.secret username = secret ∧ after.lastStep username = none := by
  have found : (world.users.user? username).isSome := by
    simp only [perform] at performed
    split at performed
    · rename_i found
      exact found.symm
    · cases performed
  obtain ⟨user, row⟩ := Option.isSome_iff_exists.mp found
  rw [effect_of_performed performed]
  simp only [World.secret, World.lastStep, effect, UserTable.setTotpSecret,
    UserTable.user?_update, if_true, row, Option.map_some, Option.bind_some,
    and_self]

theorem factor_of_vain_set {other : String} {secret : Option String}
    (performed : perform primitives thread world
      (.setTotpSecret username secret) (.ok false) = some after) :
    SameFactor world after other := by
  have absent : world.users.user? username = none := by
    simp only [perform] at performed
    split at performed
    · rename_i missing
      simpa using missing
    · cases performed
  rw [effect_of_performed performed]
  by_cases same : other = username
  · subst same
    constructor
    · simp only [World.secret, effect, UserTable.setTotpSecret,
        UserTable.user?_update, if_true, absent, Option.map_none]
    · simp only [World.lastStep, effect, UserTable.setTotpSecret,
        UserTable.user?_update, if_true, absent, Option.map_none]
  · apply SameFactor.of_update
    exact fun named => absurd named same

theorem factor_of_claim
    (performed : perform primitives thread world
      (.claimTotpStep username step) (.ok true) = some after) :
    (∀ last, world.lastStep username = some last → last < step) ∧
      after.secret username = world.secret username ∧
        after.lastStep username = some step := by
  have unspent : (world.users.user? username).any (·.unspent step) = true := by
    simp only [perform] at performed
    split at performed
    · rename_i won
      exact won.symm
    · cases performed
  obtain ⟨user, row, later⟩ := (Option.any_eq_true ..).mp unspent
  rw [effect_of_performed performed]
  refine ⟨fun last seen => ?_, ?_, ?_⟩
  · rw [World.lastStep, row, Option.bind_some] at seen
    simpa [User.unspent, seen] using later
  · simp only [World.secret, effect, UserTable.setLastStep,
      UserTable.user?_update, if_true, row, Option.map_some, Option.bind_some]
  · simp only [World.lastStep, effect, UserTable.setLastStep,
      UserTable.user?_update, if_true, row, Option.map_some, Option.bind_some]

/-- A step that is refused is not, if the account has a second factor. -/
theorem factor_of_vain_claim {secret : String}
    (performed : perform primitives thread world
      (.claimTotpStep username step) (.ok false) = some after)
    (stored : world.secret username = some secret) :
    ∃ last, world.lastStep username = some last ∧ step ≤ last := by
  have spent : (world.users.user? username).any (·.unspent step) = false := by
    simp only [perform] at performed
    split at performed
    · rename_i lost
      exact lost.symm
    · cases performed
  obtain ⟨user, row, -⟩ := Option.bind_eq_some_iff.mp stored
  rw [row, Option.any_some, User.unspent] at spent
  cases seen : user.totpLastStep with
  | none => simp [seen] at spent
  | some last =>
    refine ⟨last, ?_, ?_⟩
    · rw [World.lastStep, row, Option.bind_some, seen]
    · simpa [seen] using spent

theorem world_of_vain_claim {answer : Except AccountError Bool}
    (performed : perform primitives thread world
      (.claimTotpStep username step) answer = some after)
    (vain : answer ≠ .ok true) : after = world := by
  rw [effect_of_performed performed]
  rcases answer with reason | won
  · rfl
  · cases won with
    | false => rfl
    | true => exact absurd rfl vain

theorem secret_of_performed
    (performed : perform primitives thread world request answer = some after)
    (stored : ∀ secret, request ≠ .setTotpSecret username secret) :
    after.secret username = world.secret username := by
  by_cases claims : ∃ step, request = .claimTotpStep username step
  · obtain ⟨step, rfl⟩ := claims
    by_cases won : answer = .ok true
    · subst won
      exact (factor_of_claim performed).2.1
    · rw [world_of_vain_claim performed won]
  · exact (factor_of_performed performed stored
      fun step same => claims ⟨step, same⟩).secret

/-- A session was there before, or it has just been created. -/
theorem session_of_performed {token : String} {session : Session}
    (performed : perform primitives thread world request answer = some after)
    (found : after.sessions token = some session) :
    (∃ before, world.sessions token = some before ∧
        before.username = session.username) ∨
      ∃ now, (⟨thread, request, answer⟩ : Event) =
        ⟨thread, .createSession session.username, (now, .ok token)⟩ := by
  have effected := effect_of_performed performed
  cases request with
  | createSession username =>
    rw [effected] at found
    obtain ⟨now, drawn⟩ := answer
    cases drawn with
    | error reason => exact .inl ⟨session, found, rfl⟩
    | ok other =>
      simp only [effect, World.createSession] at found
      by_cases same : token = other
      · subst same
        rw [Function.update_self] at found
        cases found
        exact .inr ⟨now, rfl⟩
      · rw [Function.update_of_ne same,
          Option.filter_eq_some_iff] at found
        exact .inl ⟨session, found.1, rfl⟩
  | touchSession other =>
    rw [effected] at found
    obtain ⟨now, username⟩ := answer
    simp only [effect, World.touch] at found
    left
    by_cases same : token = other
    · subst same
      rw [Function.update_self, Option.map_eq_some_iff] at found
      obtain ⟨before, kept, rfl⟩ := found
      rw [Option.filter_eq_some_iff] at kept
      exact ⟨before, kept.1, rfl⟩
    · rw [Function.update_of_ne same] at found
      exact ⟨session, found, rfl⟩
  | revokeAllExcept keep =>
    rw [effected] at found
    simp only [effect, World.revokeAllExcept] at found
    split at found
    · exact .inl ⟨session, found, rfl⟩
    · cases found
  | _ =>
    rw [sessions_of_other performed trivial] at found
    exact .inl ⟨session, found, rfl⟩

/-- A sign-in that waits for its code was there before, or has just begun. -/
theorem pending_of_performed {token : String} {entry : Pending}
    (performed : perform primitives thread world request answer = some after)
    (found : after.pending token = some entry) :
    (∃ before, world.pending token = some before ∧
        before.username = entry.username) ∨
      ∃ now, (⟨thread, request, answer⟩ : Event) =
        ⟨thread, .beginSecondFactor entry.username, (now, .ok token)⟩ := by
  have effected := effect_of_performed performed
  cases request with
  | beginSecondFactor username =>
    rw [effected] at found
    obtain ⟨now, drawn⟩ := answer
    cases drawn with
    | error reason => exact .inl ⟨entry, found, rfl⟩
    | ok other =>
      simp only [effect, World.beginSecondFactor] at found
      by_cases same : token = other
      · subst same
        rw [Function.update_self] at found
        cases found
        exact .inr ⟨now, rfl⟩
      · rw [Function.update_of_ne same,
          Option.filter_eq_some_iff] at found
        exact .inl ⟨entry, found.1, rfl⟩
  | failSecondFactor other =>
    left
    rw [effected] at found
    simp only [effect, World.failSecondFactor] at found
    split at found
    · exact ⟨entry, found, rfl⟩
    · rename_i before waiting
      split at found
      · dsimp only at found
        by_cases same : token = other
        · subst same
          rw [Function.update_self] at found
          cases found
        · rw [Function.update_of_ne same] at found
          exact ⟨entry, found, rfl⟩
      · dsimp only at found
        by_cases same : token = other
        · subst same
          rw [Function.update_self] at found
          cases found
          exact ⟨before, waiting, rfl⟩
        · rw [Function.update_of_ne same] at found
          exact ⟨entry, found, rfl⟩
  | finishSecondFactor other =>
    left
    rw [effected] at found
    simp only [effect, World.finishSecondFactor] at found
    by_cases same : token = other
    · subst same
      rw [Function.update_self] at found
      cases found
    · rw [Function.update_of_ne same] at found
      exact ⟨entry, found, rfl⟩
  | _ =>
    rw [pending_of_other performed trivial] at found
    exact .inl ⟨entry, found, rfl⟩

end Perform

/-- A call about a password, the session of a cookie, or the store as a
whole. -/
def Call.IsPlain : Call → Prop
  | .openStore | .userCount | .hashPassword _ | .selectPasswordHash _
  | .verifyHash _ _ | .updatePassword _ _ | .touchSession _ => True
  | _ => False

section Plain

variable {allowed : Call → Prop}
variable (wider : ∀ request : Call, request.IsPlain → allowed request)

include wider

theorem verifyPassword_only (username password : String) :
    (verifyPassword username password).Only allowed := by
  refine ⟨wider _ trivial, fun stored => ?_⟩
  cases stored with
  | error reason => trivial
  | ok stored =>
    refine ⟨wider _ trivial, fun verified => ?_⟩
    cases verified <;> trivial

theorem setPassword_only (username password : String) :
    (setPassword username password).Only allowed := by
  apply Prog.Only.proceed
  intro _
  refine ⟨wider _ trivial, fun hash => ?_⟩
  cases hash with
  | error reason => trivial
  | ok hash => exact ⟨wider _ trivial, fun _ => trivial⟩

theorem storeOr503_only {rest : Program Response}
    (only : rest.Only allowed) : (storeOr503 rest).Only allowed := by
  refine ⟨wider _ trivial, fun opened => ?_⟩
  cases opened with
  | error reason => trivial
  | ok _ => exact only

theorem currentUser_only {cookie : Option String}
    {rest : Option (String × String) → Program Response}
    (only : ∀ user, (rest user).Only allowed) :
    (currentUser cookie rest).Only allowed := by
  cases cookie with
  | none => exact only none
  | some token => exact ⟨wider _ trivial, fun _ => only _⟩

theorem passwordOk_only {username password : String}
    {rest : Bool → Program Response}
    (only : ∀ verified, (rest verified).Only allowed) :
    (passwordOk username password rest).Only allowed := by
  apply (verifyPassword_only wider username password).bind
  intro verified
  cases verified with
  | ok verified => exact only verified
  | error reason => cases reason <;> trivial

theorem changePassword_only (cookie : Option String)
    (form : ChangePasswordForm)
    (revokes : ∀ token, allowed (.revokeAllExcept token)) :
    (changePassword cookie form).Only allowed := by
  apply currentUser_only wider
  intro user
  cases user with
  | none => trivial
  | some user =>
    dsimp only
    split
    · trivial
    · apply storeOr503_only wider
      apply passwordOk_only wider
      intro verified
      cases verified with
      | false => trivial
      | true =>
        apply (setPassword_only wider _ _).bind
        intro changed
        rcases changed with reason | changed
        · cases reason <;> trivial
        · cases changed with
          | false => trivial
          | true => exact ⟨revokes _, fun _ => trivial⟩

end Plain

section Codes

variable {primitives : Primitives} {allowed : Call → Prop}

theorem checkCode_only (username code : String)
    (selects : allowed (.selectTotpSecret username))
    (reads : allowed .nowEpoch)
    (claims : ∀ step, allowed (.claimTotpStep username step)) :
    (checkCode primitives username code).Only allowed := by
  refine ⟨selects, fun secret => ?_⟩
  cases secret with
  | error reason => trivial
  | ok secret =>
    cases secret with
    | none => trivial
    | some secret =>
      refine ⟨reads, fun now => ?_⟩
      dsimp only
      split
      · exact ⟨claims _, fun _ => trivial⟩
      · trivial

end Codes

end Accounts

end Sharerr
