import Sharerr.Serve.Caches
import Sharerr.Vault.Updates

/-!
# What a cached value was read from

The values of a set of caches are read out of the vault after the invalidation
that put the set in place, however long the reading took.  So a request that
fetched the set after an invalidation sees what some vault opened after that
invalidation held.
-/

namespace Sharerr

namespace Serve

namespace Caches

open Process (Prog Performed Safe)

variable {Cipher : Type}

section Stored

variable (sealing : Sealing Cipher) (master : String)

/-- The value a file holds under a key, as the master key reads it. -/
def storedString (file : Option Bytes) (key : String) : Option String := do
  let raw ← file
  let (salt, records) ← (Vault.parse raw).toOption
  let cipher ← (sealing.derive master salt).toOption
  (Vault.get sealing.toCrypto ⟨salt, cipher, records⟩ key).toOption.join

/-- What an accessor has to return while the vault has this file. -/
def stored (file : Option Bytes) : (name : Name) → name.Returned
  | .trackerTokens =>
    (storedString sealing master file Tracker.trackerToken,
      storedString sealing master file Tracker.trackerTokenPrevious)
  | .metricsToken => storedString sealing master file metricsToken
  | .apiToken => storedString sealing master file apiToken

/-- What an accessor loads out of an opened vault. -/
def loaded : (name : Name) → Vault.Handle Cipher → Option name.Value
  | .trackerTokens, vault => loadTokens sealing vault
  | .metricsToken, vault => vaultString sealing vault metricsToken
  | .apiToken, vault => vaultString sealing vault apiToken

variable {sealing master} {handle : Vault.Handle Cipher} {host : Vault.Host}
  {file : Option Bytes}

theorem vaultString_of_open
    (opened : Vault.Handle.openAt sealing master host file = .ok handle)
    (key : String) :
    vaultString sealing handle key = storedString sealing master file key := by
  obtain ⟨derived, ⟨rfl, empty⟩ | ⟨raw, rfl, parsed⟩⟩ :=
    Vault.Handle.openAt_eq_ok opened
  · have absent : handle.get sealing.toCrypto key = .ok none :=
      Vault.get_eq_none_of_absent (by simp [empty])
    simp [vaultString, absent, storedString]
  · have whole : (⟨handle.salt, handle.cipher, handle.records⟩ :
        Vault Cipher) = handle.toVault := rfl
    simp only [storedString, parsed, derived, Except.toOption, vaultString,
      whole, Option.bind_eq_bind, Option.bind_some]
    cases handle.get sealing.toCrypto key <;> rfl

theorem loaded_of_open
    (opened : Vault.Handle.openAt sealing master host file = .ok handle)
    (name : Name) :
    name.returned (loaded sealing name handle) =
      stored sealing master file name := by
  cases name with
  | trackerTokens =>
    simp only [loaded, loadTokens, stored, vaultString_of_open opened]
    rfl
  | metricsToken => exact vaultString_of_open opened metricsToken
  | apiToken => exact vaultString_of_open opened apiToken

end Stored

def invalidates : Event Cipher → Bool
  | ⟨_, .invalidate _, _⟩ => true
  | _ => false

/-- A write of the vault that went through. -/
def writes : Event Cipher → Bool
  | ⟨_, .mutate _ _, (_, _, .ok _)⟩ => true
  | _ => false

def invalidations (events : List (Event Cipher)) : Nat :=
  events.countP invalidates

theorem invalidations_append (first second : List (Event Cipher)) :
    invalidations (first ++ second) =
      invalidations first + invalidations second :=
  List.countP_append

section Files

variable (sealing : Sealing Cipher)

/-- The file after one more event. -/
def fileStep (file : Option Bytes) : Event Cipher → Option Bytes
  | ⟨_, .mutate handle mutation, (host, _)⟩ =>
    (handle.mutate sealing host file mutation).file
  | _ => file

/-- The file after some events. -/
def fileAfter (file : Option Bytes) (events : List (Event Cipher)) :
    Option Bytes :=
  events.foldl (fileStep sealing) file

theorem fileAfter_append (file : Option Bytes)
    (first second : List (Event Cipher)) :
    fileAfter sealing file (first ++ second) =
      fileAfter sealing (fileAfter sealing file first) second :=
  List.foldl_append

end Files

section Perform

variable [DecidableEq Cipher] {sealing : Sealing Cipher} {master : String}
variable {thread : Nat} {world after : World} {request : Call Cipher}
  {answer : Answer request}

theorem opened_of_performed {host : Vault.Host} {handle : Vault.Handle Cipher}
    (performed : perform sealing master thread world .openVault
      (host, .ok handle) = some after) :
    Vault.Handle.openAt sealing master host world.file = .ok handle := by
  simp only [perform] at performed
  split at performed
  · rename_i opened
    cases made : Vault.Handle.openAt sealing master host world.file with
    | error reason => simp [made, Except.toOption] at opened
    | ok other =>
      simp only [made, Except.toOption, Option.some.injEq] at opened
      rw [opened]
  · cases performed

/-- The world after a call that got its answer. -/
def effect (sealing : Sealing Cipher) (thread : Nat) (world : World) :
    (request : Call Cipher) → Answer request → World
  | .lockCache set name, _ => world.guard set name (some thread)
  | .fillCache set name value, _ => world.fill set name value
  | .unlockCache set name, _ => world.guard set name none
  | .mutate handle mutation, (host, _) =>
    { world with
      file := (handle.mutate sealing host world.file mutation).file }
  | .invalidate _, _ =>
    { world with
      current := world.current + 1
      caches := Function.update world.caches (world.current + 1) .default }
  | _, _ => world

theorem effect_of_performed
    (performed : perform sealing master thread world request answer =
      some after) :
    after = effect sealing thread world request answer := by
  cases request with
  | openVault =>
    obtain ⟨host, opened⟩ := answer
    cases opened with
    | error reason =>
      cases performed
      rfl
    | ok handle =>
      simp only [perform] at performed
      split at performed
      · cases performed
        rfl
      · cases performed
  | fillCache | invalidate =>
    cases performed
    rfl
  | mutate handle mutation =>
    obtain ⟨host, left, result⟩ := answer
    simp only [perform] at performed
    split at performed
    · cases performed
      rfl
    · cases performed
  | _ =>
    simp only [perform] at performed
    split at performed
    · cases performed
      rfl
    · cases performed

theorem file_of_performed
    (performed : perform sealing master thread world request answer =
      some after) :
    after.file = fileStep sealing world.file ⟨thread, request, answer⟩ := by
  rw [effect_of_performed performed]
  cases request <;> rfl

theorem current_of_performed
    (performed : perform sealing master thread world request answer =
      some after) :
    after.current = world.current +
      invalidations [(⟨thread, request, answer⟩ : Event Cipher)] := by
  rw [effect_of_performed performed]
  cases request <;> rfl

variable {name : Name} {set : Nat}

/-- A value is in a cache because it was there or has just been filled in. -/
theorem cached_of_performed {value : Option name.Value}
    (performed : perform sealing master thread world request answer =
      some after) (cached : after.caches set name = some value) :
    world.caches set name = some value ∨
      request = .fillCache set name value := by
  rw [effect_of_performed performed] at cached
  cases request with
  | fillCache other which filled =>
    simp only [effect, World.fill] at cached
    by_cases here : set = other
    · subst here
      rw [Function.update_self] at cached
      by_cases same : name = which
      · subst same
        rw [Function.update_self] at cached
        cases cached
        exact .inr rfl
      · rw [Function.update_of_ne same] at cached
        exact .inl cached
    · rw [Function.update_of_ne here] at cached
      exact .inl cached
  | invalidate reason =>
    simp only [effect] at cached
    by_cases here : set = world.current + 1
    · subst here
      rw [Function.update_self] at cached
      cases cached
    · rw [Function.update_of_ne here] at cached
      exact .inl cached
  | _ => exact .inl cached

theorem fetched_of_performed
    (performed : perform sealing master thread world .fetchCaches set =
      some after) :
    set = world.current := by
  simp only [perform] at performed
  split at performed
  · assumption
  · cases performed

theorem cached_of_read {cached : Option (Option name.Value)}
    (performed : perform sealing master thread world (.readCache set name)
      cached = some after) :
    cached = world.caches set name := by
  simp only [perform] at performed
  split at performed
  · rename_i both
    exact both.2
  · cases performed

theorem cached_of_recheck {cached : Option (Option name.Value)}
    (performed : perform sealing master thread world (.recheckCache set name)
      cached = some after) :
    cached = world.caches set name := by
  simp only [perform] at performed
  split at performed
  · assumption
  · cases performed

theorem fileStep_of_unwritten
    (performed : perform sealing master thread world request answer =
      some after)
    (unwritten : writes ⟨thread, request, answer⟩ = false) :
    fileStep sealing world.file ⟨thread, request, answer⟩ = world.file := by
  cases request with
  | mutate handle mutation =>
    obtain ⟨host, left, result⟩ := answer
    cases result with
    | ok value => cases unwritten
    | error reason =>
      simp only [perform] at performed
      split at performed
      · rename_i ended
        exact Vault.Handle.file_of_error ended.2
      · cases performed
  | _ => rfl

end Perform

section Observed

variable (sealing : Sealing Cipher) (master : String) (file : Option Bytes)

/-- The value was read out of a vault that was opened when the caches had been
put in place at least `since` times. -/
def Observed (since : Nat) (name : Name) (value : name.Returned)
    (past : List (Event Cipher)) : Prop :=
  ∃ before thread host handle after,
    past = before ++ ⟨thread, .openVault, (host, .ok handle)⟩ :: after ∧
      since ≤ invalidations before ∧
        value = stored sealing master (fileAfter sealing file before) name

theorem Observed.later {since : Nat} {name : Name} {value : name.Returned}
    {past : List (Event Cipher)}
    (observed : Observed sealing master file since name value past)
    (event : Event Cipher) :
    Observed sealing master file since name value (past ++ [event]) := by
  obtain ⟨before, thread, host, handle, after, rfl, enough, same⟩ := observed
  exact ⟨before, thread, host, handle, after ++ [event],
    by rw [List.append_assoc, List.cons_append], enough, same⟩

/-- The file and the caches are as the events so far left them. -/
structure Coherent (moment : Moment Cipher) : Prop where
  files : moment.world.file = fileAfter sealing file moment.past
  current : moment.world.current = invalidations moment.past
  cached : ∀ set name value, moment.world.caches set name = some value →
    Observed sealing master file set name (name.returned value) moment.past
  fetched : ∀ earlier thread set later,
    moment.past = earlier ++ ⟨thread, .fetchCaches, set⟩ :: later →
      set = invalidations earlier

variable {sealing master file}

theorem Coherent.start :
    Coherent sealing master file ⟨.start file, []⟩ where
  files := rfl
  current := rfl
  cached _ _ _ filled := nomatch filled
  fetched earlier _ _ later whole := by
    cases earlier <;> cases whole

/-- Any call keeps the caches coherent, where a value that is filled in was
read late enough. -/
theorem Coherent.step [DecidableEq Cipher] {before after : Moment Cipher}
    {thread : Nat} {request : Call Cipher} {answer : Answer request}
    (coherent : Coherent sealing master file before)
    (performed : perform sealing master thread before.world request answer =
      some after.world)
    (past : after.past = before.past ++ [⟨thread, request, answer⟩])
    (filled : ∀ set name value, request = .fillCache set name value →
      Observed sealing master file set name (name.returned value)
        before.past) :
    Coherent sealing master file after := by
  constructor
  · rw [file_of_performed performed, past, fileAfter_append, coherent.files]
    rfl
  · rw [current_of_performed performed, past, invalidations_append,
      coherent.current]
  · intro set name value cached
    rw [past]
    rcases cached_of_performed performed cached with before | fill
    · exact (coherent.cached set name value before).later ..
    · exact (filled set name value fill).later ..
  · intro earlier other set later whole
    rw [past] at whole
    rcases Process.split_last whole with ⟨rfl, last⟩ | ⟨rest, -, whole⟩
    · cases last
      rw [fetched_of_performed performed, coherent.current]
    · exact coherent.fetched earlier other set rest whole

end Observed

/-- The thread has fetched this set of caches and no other. -/
structure Fetched (thread set : Nat) (moment : Moment Cipher) : Prop where
  only : ∀ other, ⟨thread, .fetchCaches, other⟩ ∈ moment.past → other = set
  passed : set ≤ invalidations moment.past

theorem Fetched.step {thread set : Nat} {before after : Moment Cipher}
    {event : Event Cipher} (fetched : Fetched thread set before)
    (past : after.past = before.past ++ [event])
    (another : ∀ other, event ≠ ⟨thread, .fetchCaches, other⟩) :
    Fetched thread set after := by
  constructor
  · intro other member
    rw [past] at member
    rcases List.mem_append.mp member with earlier | last
    · exact fetched.only other earlier
    · exact absurd (List.mem_singleton.mp last).symm (another other)
  · have passed := fetched.passed
    rw [past, invalidations_append]
    omega

section Protocol

variable [DecidableEq Cipher] (sealing : Sealing Cipher) (master : String)
  (file : Option Bytes)

def caching : Process.Protocol Nat World (Call Cipher) Answer where
  perform := perform sealing master
  condition := .always
  invariant := Coherent sealing master file
  guarantee _ _ _ := True

/-- What a request returned comes out of the set of caches it fetched. -/
def Sourced (thread : Nat) : Result → Moment Cipher → Prop
  | .read name (.ok value), moment =>
    ∃ set, Fetched thread set moment ∧
      Observed sealing master file set name value moment.past
  | _, _ => True

variable {sealing master file} {thread set : Nat}

variable {after before moment : Moment Cipher} {request : Call Cipher}
  {answer : Answer request} {name : Name} {value : Option name.Value}

theorem perform_of_caching
    (performed : Performed (caching sealing master file) thread before request
      answer after) :
    perform sealing master thread before.world request answer =
      some after.world :=
  performed.performed

theorem Fetched.stable :
    (caching sealing master file).Stable thread (Fetched thread set) := by
  rintro before after fetched
    ⟨other, different, -, -, request, answer, performed⟩
  apply fetched.step performed.past
  intro again same
  exact different (congrArg Process.Event.thread same)

theorem observed_stable {since : Nat} {value : name.Returned} :
    (caching sealing master file).Stable thread fun moment =>
      Observed sealing master file since name value moment.past := by
  apply Process.Protocol.Stable.of_performed
  intro other before request answer after performed observed
  rw [performed.past]
  exact observed.later ..

theorem Sourced.stable (result : Result) :
    (caching sealing master file).Stable thread
      (Sourced sealing master file thread result) := by
  cases result with
  | wrote answer => exact fun _ _ _ _ => trivial
  | read name value =>
    cases value with
    | error reason => exact fun _ _ _ _ => trivial
    | ok value =>
      rintro before after ⟨set, fetched, observed⟩ others
      exact ⟨set, Fetched.stable before after fetched others,
        observed_stable before after observed others⟩

/-- Any call but a fetch leaves what a thread has fetched as it was. -/
theorem Fetched.of_performed (fetched : Fetched thread set before)
    (performed : Performed (caching sealing master file) thread before request
      answer after) (another : request ≠ .fetchCaches) :
    Fetched thread set after := by
  apply fetched.step performed.past
  intro other same
  exact another (congrArg Process.Event.request same)

theorem coherent_of_performed
    (performed : Performed (caching sealing master file) thread before request
      answer after)
    (other : ∀ set name value, request ≠ .fillCache set name value) :
    Coherent sealing master file after :=
  Coherent.step performed.holds (perform_of_caching performed) performed.past
    fun set name value same => absurd same (other set name value)

/-- The value was read no earlier than the thread's set of caches. -/
def Shown (sealing : Sealing Cipher) (master : String) (file : Option Bytes)
    (thread set : Nat) (name : Name) (value : Option name.Value)
    (moment : Moment Cipher) : Prop :=
  Fetched thread set moment ∧
    Observed sealing master file set name (name.returned value) moment.past

theorem Shown.stable :
    (caching sealing master file).Stable thread
      (Shown sealing master file thread set name value) :=
  Fetched.stable.and observed_stable

theorem Shown.of_performed
    (shown : Shown sealing master file thread set name value before)
    (performed : Performed (caching sealing master file) thread before request
      answer after) (another : request ≠ .fetchCaches) :
    Shown sealing master file thread set name value after := by
  constructor
  · exact shown.1.of_performed performed another
  · rw [performed.past]
    exact shown.2.later ..

theorem shown_of_cached (fetched : Fetched thread set before)
    (performed : Performed (caching sealing master file) thread before request
      answer after) (another : request ≠ .fetchCaches)
    (cached : before.world.caches set name = some value) :
    Shown sealing master file thread set name value after :=
  Shown.of_performed
    ⟨fetched, performed.holds.cached set name value cached⟩ performed another

theorem shown_of_opened {host : Vault.Host} {handle : Vault.Handle Cipher}
    (fetched : Fetched thread set before)
    (performed : Performed (caching sealing master file) thread before
      .openVault (host, .ok handle) after) :
    Shown sealing master file thread set name (loaded sealing name handle)
      after := by
  constructor
  · exact fetched.of_performed performed nofun
  · refine ⟨before.past, thread, host, handle, [], performed.past,
      fetched.passed, ?_⟩
    rw [← performed.holds.files]
    exact loaded_of_open
      (opened_of_performed (perform_of_caching performed)) name

/-- Every value `try_cached_from_vault` returns is shown by its set of
caches. -/
def Shows (sealing : Sealing Cipher) (master : String) (file : Option Bytes)
    (thread set : Nat) (name : Name) :
    Except String (Option name.Value) → Moment Cipher → Prop
  | .ok value => Shown sealing master file thread set name value
  | .error _ => fun _ => True

/-- The write guard is given back before the value is returned. -/
theorem safe_unlock
    (shown : Shown sealing master file thread set name value moment) :
    Safe (caching sealing master file) thread
      (Shows sealing master file thread set name)
      (.call (.unlockCache set name) fun _ => .done (.ok value)) moment := by
  apply Safe.call Shown.stable shown
  intro before answer after shown performed
  exact ⟨coherent_of_performed performed nofun, trivial,
    shown.of_performed performed nofun⟩

theorem safe_fill {load : Vault.Handle Cipher → Option name.Value}
    (loads : load = loaded sealing name) (fetched : Fetched thread set moment) :
    Safe (caching sealing master file) thread
      (Shows sealing master file thread set name)
      (.call .openVault fun
        | (_, .error reason) =>
          .call (.unlockCache set name) fun _ => .done (.error reason)
        | (_, .ok vault) =>
          .call (.fillCache set name (load vault)) fun _ =>
            .call (.unlockCache set name) fun _ =>
              .done (.ok (load vault))) moment := by
  subst loads
  apply Safe.call Fetched.stable fetched
  rintro before ⟨host, opened⟩ after fetched performed
  refine ⟨coherent_of_performed performed nofun, trivial, ?_⟩
  cases opened with
  | error reason =>
    apply Safe.call Fetched.stable (fetched.of_performed performed nofun)
    intro before answer after _ performed
    exact ⟨coherent_of_performed performed nofun, trivial, trivial⟩
  | ok vault =>
    apply Safe.call Shown.stable (shown_of_opened fetched performed)
    intro before answer after shown performed
    have coherent : Coherent sealing master file after := by
      apply Coherent.step performed.holds (perform_of_caching performed)
        performed.past
      intro other which value same
      cases same
      exact shown.2
    exact ⟨coherent, trivial,
      safe_unlock (shown.of_performed performed nofun)⟩

theorem safe_tryCachedFromVault {load : Vault.Handle Cipher → Option name.Value}
    (loads : load = loaded sealing name) (fetched : Fetched thread set moment) :
    Safe (caching sealing master file) thread
      (Shows sealing master file thread set name)
      (tryCachedFromVault set name load) moment := by
  apply Safe.call Fetched.stable fetched
  intro before cached after fetched performed
  refine ⟨coherent_of_performed performed nofun, trivial, ?_⟩
  have found := cached_of_read (perform_of_caching performed)
  cases cached with
  | some cached => exact shown_of_cached fetched performed nofun found.symm
  | none =>
    apply Safe.call Fetched.stable (fetched.of_performed performed nofun)
    intro before answer after fetched performed
    refine ⟨coherent_of_performed performed nofun, trivial, ?_⟩
    apply Safe.call Fetched.stable (fetched.of_performed performed nofun)
    intro before cached after fetched performed
    refine ⟨coherent_of_performed performed nofun, trivial, ?_⟩
    have found := cached_of_recheck (perform_of_caching performed)
    cases cached with
    | some cached =>
      exact safe_unlock
        (shown_of_cached fetched performed nofun found.symm)
    | none => exact safe_fill loads (fetched.of_performed performed nofun)

/-- A thread that has fetched no set of caches yet. -/
def Unfetched (thread : Nat) (moment : Moment Cipher) : Prop :=
  ∀ set, ⟨thread, .fetchCaches, set⟩ ∉ moment.past

theorem Unfetched.stable :
    (caching sealing master file).Stable thread (Unfetched thread) := by
  rintro before after unfetched
    ⟨other, different, -, -, request, answer, performed⟩ set member
  rw [performed.past] at member
  rcases List.mem_append.mp member with earlier | last
  · exact unfetched set earlier
  · have same := List.mem_singleton.mp last
    exact different (congrArg Process.Event.thread same).symm

theorem fetched_of_first (unfetched : Unfetched thread before)
    (performed : Performed (caching sealing master file) thread before
      .fetchCaches set after) :
    Fetched thread set after := by
  constructor
  · intro other member
    rw [performed.past] at member
    rcases List.mem_append.mp member with earlier | last
    · exact absurd earlier (unfetched other)
    · cases List.mem_singleton.mp last
      rfl
  · have current := fetched_of_performed (perform_of_caching performed)
    rw [performed.holds.current] at current
    rw [performed.past, invalidations_append]
    omega

theorem safe_accessor (name : Name) (unfetched : Unfetched thread moment) :
    Safe (caching sealing master file) thread
      (fun value after => Sourced sealing master file thread
        (.read name value) after)
      (accessor sealing name) moment := by
  have sourced : ∀ (set : Nat) (value : Except String (Option name.Value))
      (after : Moment Cipher),
      Shows sealing master file thread set name value after →
        Sourced sealing master file thread
          (.read name (value.map name.returned)) after := by
    intro set value after shows
    cases value with
    | error reason => trivial
    | ok value => exact ⟨set, shows⟩
  cases name with
  | trackerTokens =>
    apply Safe.call Unfetched.stable unfetched
    intro before set after unfetched performed
    refine ⟨coherent_of_performed performed nofun, trivial, ?_⟩
    apply Safe.bind
      (safe_tryCachedFromVault rfl (fetched_of_first unfetched performed))
    exact sourced set
  | metricsToken | apiToken =>
    apply Safe.call Unfetched.stable unfetched
    intro before set after unfetched performed
    refine ⟨coherent_of_performed performed nofun, trivial, ?_⟩
    apply Safe.mono
      (safe_tryCachedFromVault rfl (fetched_of_first unfetched performed))
    intro value after shows
    cases value with
    | error reason => trivial
    | ok value => exact ⟨set, shows⟩

theorem safe_job (job : Job Cipher) (unfetched : Unfetched thread moment) :
    Safe (caching sealing master file) thread
      (Sourced sealing master file thread) (job.program sealing) moment := by
  cases job with
  | read name =>
    apply (safe_accessor name unfetched).bind
    exact fun value after sourced => sourced
  | write program writing =>
    have anything : (caching sealing master file).Stable thread
        fun _ : Moment Cipher => True :=
      fun _ _ _ _ => trivial
    have safe : Safe (caching sealing master file) thread
        (fun _ _ => True) program moment := by
      apply Safe.of_only anything _ writing trivial
      intro before request answer after allowed _ performed
      refine ⟨coherent_of_performed performed ?_, trivial, trivial⟩
      rintro set name value rfl
      exact allowed
    exact safe.bind fun _ _ _ => trivial

end Protocol

section Runs

variable [DecidableEq Cipher] {sealing : Sealing Cipher} {master : String}
  {file : Option Bytes} {jobs : Nat → Job Cipher}
  {events : List (Event Cipher)}
  {final : Process.Pool Nat World (Call Cipher) Answer Result}

theorem sound_of_run
    (run : Process.Run (perform sealing master) .always
      (pool sealing file jobs) events final) :
    Process.Sound (caching sealing master file)
      (Sourced sealing master file) events final := by
  refine Process.Run.sound (fun _ => Sourced.stable) run ⟨.start, ?_⟩
  exact fun thread => safe_job (jobs thread) fun _ member => nomatch member

/-- Events without a write leave the file alone. -/
theorem file_of_unwritten {earlier later : List (Event Cipher)}
    (run : Process.Run (perform sealing master) .always
      (pool sealing file jobs) (earlier ++ later) final)
    (unwritten : ∀ event ∈ later, writes event = false) :
    final.world.file = fileAfter sealing file earlier := by
  induction later using List.reverseRecOn generalizing final with
  | nil =>
    rw [List.append_nil] at run
    exact (sound_of_run run).holds.files
  | append_singleton later event ih =>
    rw [← List.append_assoc] at run
    obtain ⟨middle, next, world, before, -, -, performed, rfl⟩ := run.last
    have same := ih before fun other member =>
      unwritten other (List.mem_append_left _ member)
    have last := unwritten event
      (List.mem_append_right _ List.mem_cons_self)
    rw [Process.Pool.put_world, file_of_performed performed,
      fileStep_of_unwritten performed last, same]

/-- Each write is followed by an invalidation. -/
def Announced (events : List (Event Cipher)) : Prop :=
  ∀ first write rest, events = first ++ write :: rest → writes write = true →
    rest.any invalidates = true

/-- Whether each write is followed by an invalidation. -/
def announces : List (Event Cipher) → Bool
  | [] => true
  | event :: rest =>
    (!writes event || rest.any invalidates) && announces rest

omit [DecidableEq Cipher] in
theorem announced_of_check (checked : announces events = true) :
    Announced events := by
  induction events with
  | nil =>
    intro first write rest whole
    cases first <;> cases whole
  | cons event events ih =>
    intro first write rest whole written
    simp only [announces, Bool.and_eq_true, Bool.or_eq_true,
      Bool.not_eq_true'] at checked
    cases first with
    | nil =>
      cases whole
      rcases checked.1 with unwritten | followed
      · rw [written] at unwritten
        cases unwritten
      · exact followed
    | cons other first =>
      cases whole
      exact ih checked.2 first write rest rfl written

omit [DecidableEq Cipher] in
theorem invalidations_of_any (some : events.any invalidates = true) :
    0 < invalidations events := by
  obtain ⟨event, member, invalidating⟩ := List.any_eq_true.mp some
  exact List.countP_pos_iff.mpr ⟨event, member, invalidating⟩

omit [DecidableEq Cipher] in
theorem unwritten_of_announced {before after : List (Event Cipher)}
    (announced : Announced (before ++ after))
    (quiet : invalidations (before ++ after) ≤ invalidations before) :
    ∀ event ∈ after, writes event = false := by
  intro event member
  by_contra written
  obtain ⟨first, rest, rfl⟩ := List.append_of_mem member
  have invalidating := announced (before ++ first) event rest
    (by rw [List.append_assoc]) (Bool.eq_true_of_not_eq_false written)
  have counted := invalidations_of_any invalidating
  rw [List.append_cons, ← List.append_assoc, invalidations_append,
    invalidations_append] at quiet
  omega

/-- Where an accessor's answer was read: out of a vault opened after every
invalidation that came before the accessor started. -/
theorem opened_of_returned {earlier later : List (Event Cipher)}
    {reader set : Nat} {name : Name} {value : name.Returned}
    (run : Process.Run (perform sealing master) .always
      (pool sealing file jobs)
      (earlier ++ ⟨reader, .fetchCaches, set⟩ :: later) final)
    (returned : final.threads reader = .done (.read name (.ok value))) :
    Observed sealing master file (invalidations earlier) name value
      (earlier ++ ⟨reader, .fetchCaches, set⟩ :: later) := by
  have sound := sound_of_run run
  obtain ⟨own, fetched, observed⟩ := sound.finished returned
  obtain rfl := fetched.only set
    (List.mem_append_right _ List.mem_cons_self)
  rw [← sound.holds.fetched earlier reader set later rfl]
  exact observed

/-- In every run, an accessor that starts after the last invalidation and
succeeds returns what the vault file holds; and what it returns was read after
every write whose invalidation came before it started. -/
theorem accessor_returns_stored {earlier later : List (Event Cipher)}
    {reader set : Nat} {name : Name} {value : name.Returned}
    (run : Process.Run (perform sealing master) .always
      (pool sealing file jobs)
      (earlier ++ ⟨reader, .fetchCaches, set⟩ :: later) final)
    (returned : final.threads reader = .done (.read name (.ok value))) :
    (Announced (earlier ++ ⟨reader, .fetchCaches, set⟩ :: later) →
      (∀ event ∈ later, invalidates event = false) →
        value = stored sealing master final.world.file name) ∧
    ∀ first write rest, earlier = first ++ write :: rest →
      writes write = true → rest.any invalidates = true →
        ∃ before opener host handle after reached,
          earlier ++ ⟨reader, .fetchCaches, set⟩ :: later =
              before ++ ⟨opener, .openVault, (host, .ok handle)⟩ :: after ∧
            first ++ [write] <+: before ∧
              Process.Run (perform sealing master) .always
                  (pool sealing file jobs) before reached ∧
                value = stored sealing master reached.world.file name := by
  obtain ⟨before, opener, host, handle, after, whole, late, same⟩ :=
    opened_of_returned run returned
  constructor
  · intro announced quiet
    have uncounted : invalidations later = 0 := by
      apply List.countP_eq_zero.mpr
      intro event member
      simp [quiet event member]
    have none_after : invalidations
        (before ++ ⟨opener, .openVault, (host, .ok handle)⟩ :: after) ≤
          invalidations before := by
      rw [← whole, List.append_cons, invalidations_append,
        invalidations_append, uncounted]
      exact late
    rw [whole] at run announced
    rw [file_of_unwritten run (unwritten_of_announced announced none_after)]
    exact same
  · rintro first write rest rfl written invalidating
    have counted := invalidations_of_any invalidating
    have started : first ++ [write] <+:
        before ++ ⟨opener, .openVault, (host, .ok handle)⟩ :: after := by
      rw [← whole]
      exact ⟨rest ++ ⟨reader, .fetchCaches, set⟩ :: later, by simp⟩
    have through : first ++ [write] <+: before := by
      rcases List.prefix_or_prefix_of_prefix started
          (List.prefix_append before _) with inside | ⟨between, split⟩
      · exact inside
      · rw [List.append_cons, ← split, invalidations_append,
          invalidations_append] at late
        omega
    rw [whole] at run
    obtain ⟨reached, begun⟩ := run.of_append
    refine ⟨before, opener, host, handle, after, reached, whole, through,
      begun, ?_⟩
    rw [(sound_of_run begun).holds.files]
    exact same

end Runs

/-- A vault with a token for the management API. -/
def tokenFile : Option Bytes :=
  ((Vault.World.start none).run Vault.tagging
    [.open 0 "master" (Vault.World.goodHost 1 0),
      .mutate 0 (Vault.World.goodHost 0 1) (.put apiToken "old")]).file

def tokenHandle : Vault.Handle String :=
  match Vault.Handle.openAt Vault.tagging "master"
      (Vault.World.goodHost 1 2) tokenFile with
  | .ok handle => handle
  | .error _ => ⟨⟨List.replicate 16 0, "", []⟩, rfl, .nil⟩

/-- The vault once the token is replaced. -/
def replaced : Vault.Outcome String Vault.Answer :=
  tokenHandle.mutate Vault.tagging (Vault.World.goodHost 1 3) tokenFile
    (.put apiToken "new")

def replacement : Program String (Except String Unit) :=
  .call .openVault fun
    | (_, .error reason) => .done (.error reason)
    | (_, .ok vault) =>
      .call (.mutate vault (.put apiToken "new")) fun
        | (_, _, .error _) => .done (.error "")
        | (_, _, .ok _) =>
          .call (.invalidate "credential changed") fun _ => .done (.ok ())

theorem replacement_writing : replacement.Only Call.IsWriting := by
  refine ⟨trivial, ?_⟩
  rintro ⟨host, reason | vault⟩
  · trivial
  · refine ⟨trivial, ?_⟩
    rintro ⟨host, left, reason | answer⟩
    · trivial
    · exact ⟨trivial, fun _ => trivial⟩

/-- Two requests for the API token around a write of it. -/
def tokenJobs : Nat → Job String
  | 0 => .write replacement replacement_writing
  | _ => .read .apiToken

def opens (thread : Nat) (handle : Vault.Handle String) : Event String :=
  ⟨thread, .openVault, (Vault.World.goodHost 1 2, .ok handle)⟩

/-- The first request has read the old token when the write comes. -/
def beforeInvalidation : List (Event String) :=
  [⟨1, .fetchCaches, 0⟩, ⟨1, .readCache 0 .apiToken, none⟩,
    ⟨1, .lockCache 0 .apiToken, ()⟩, ⟨1, .recheckCache 0 .apiToken, none⟩,
    opens 1 tokenHandle, opens 0 tokenHandle,
    ⟨0, .mutate tokenHandle (.put apiToken "new"),
      (Vault.World.goodHost 1 3, replaced.handle, .ok .stored)⟩,
    ⟨0, .invalidate "credential changed", ()⟩]

/-- It fills in what it read while the second request is under way. -/
def afterInvalidation : List (Event String) :=
  [⟨1, .fillCache 0 .apiToken (some "old"), ()⟩,
    ⟨1, .unlockCache 0 .apiToken, ()⟩,
    ⟨2, .readCache 1 .apiToken, none⟩, ⟨2, .lockCache 1 .apiToken, ()⟩,
    ⟨2, .recheckCache 1 .apiToken, none⟩, opens 2 replaced.handle,
    ⟨2, .fillCache 1 .apiToken (some "new"), ()⟩,
    ⟨2, .unlockCache 1 .apiToken, ()⟩]

def tokenEvents : List (Event String) :=
  beforeInvalidation ++ ⟨2, .fetchCaches, 1⟩ :: afterInvalidation

/-- What the two requests returned, and the token in the file. -/
def tokenView (reached : Process.Pool Nat World (Call String) Answer Result) :
    Option Result × Option Result × Option String :=
  ((reached.threads 1).result?, (reached.threads 2).result?,
    storedString Vault.tagging "master" reached.world.file apiToken)

/-- The old token is filled in after the write, and the next request does not
see it. -/
theorem slow_fill_unobserved :
    ∃ final, Process.Run (perform Vault.tagging "master") .always
        (pool Vault.tagging tokenFile tokenJobs) tokenEvents final ∧
      final.threads 1 = .done (.read .apiToken (.ok (some "old"))) ∧
        final.threads 2 = .done (.read .apiToken (.ok (some "new"))) ∧
          some "new" =
            stored Vault.tagging "master" final.world.file .apiToken := by
  have replayed : (Process.replay (perform Vault.tagging "master")
      (fun _ _ => true) [] (pool Vault.tagging tokenFile tokenJobs)
        tokenEvents).map tokenView =
      some (some (.read .apiToken (.ok (some "old"))),
        some (.read .apiToken (.ok (some "new"))), some "new") := by
    decide +kernel
  obtain ⟨final, run, viewed⟩ :=
    Process.Run.exists_of_replay (fun _ _ _ => trivial) replayed
  simp only [tokenView, Prod.mk.injEq] at viewed
  obtain ⟨slow, fast, -⟩ := viewed
  have returned := Prog.eq_done_of_result? fast
  refine ⟨final, run, Prog.eq_done_of_result? slow, returned, ?_⟩
  exact (accessor_returns_stored run returned).1
    (announced_of_check (by decide +kernel)) (by decide)

end Caches

end Serve

end Sharerr
