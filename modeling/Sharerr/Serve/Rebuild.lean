import Sharerr.Process.Safety

/-!
# Rebuilding the syncer

`ServeState` caches the syncer it built last.  A settings write replaces the
configuration or the vault's file and then empties the slot; `ensure_ready`
fills an empty slot with what it builds from the values it reads.  The two meet
at any of their steps.

A syncer is represented by what it was built from.  Where a build, the store
or the vault fails is left open, and so are the contents of a configuration.
-/

namespace Sharerr

namespace Serve

open Process (Prog Performed Safe)

/-- Where an instance keeps its files. -/
structure Place (Config : Type) where
  configPath : String
  vaultPath : Config → String

/-- What a syncer was built from. -/
structure Built (Config Contents : Type) where
  config : Config
  contents : Contents
deriving DecidableEq

structure World (Config Contents : Type) where
  config : Config
  configError : Option String
  vaults : String → Contents
  syncer : Except String (Built Config Contents)

/-- One access to what the state shares, each under a lock of its own. -/
inductive Call (Config Contents : Type) where
  | readSyncer
  | readConfigError
  | readConfig
  | openVault (path : String)
  /-- The clients, the sources and the tracker, out of the values read. -/
  | construct (config : Config) (contents : Contents)
  | openStore
  | publish (syncer : Except String (Built Config Contents))
  | writeConfig (config : Config)
  | clearConfigError
  | writeVault (path : String) (contents : Contents)
deriving DecidableEq

variable {Config Contents : Type}

@[reducible] def Answer : Call Config Contents → Type
  | .readSyncer => Except String (Built Config Contents)
  | .readConfigError => Option String
  | .readConfig => Config
  | .openVault _ => Except String Contents
  | .construct _ _ => Except String Unit
  | .openStore => Except String Unit
  | .publish _ => Unit
  | .writeConfig _ => Unit
  | .clearConfigError => Unit
  | .writeVault _ _ => Except String Unit

abbrev Program (Config Contents : Type) :=
  Prog (Call Config Contents) Answer

abbrev Event (Config Contents : Type) :=
  Process.Event Nat (Call Config Contents) Answer

abbrev Moment (Config Contents : Type) :=
  Process.Moment Nat (World Config Contents) (Call Config Contents) Answer

namespace World

variable (world : World Config Contents)

def publish (syncer : Except String (Built Config Contents)) :
    World Config Contents :=
  { world with syncer }

def writeConfig (config : Config) : World Config Contents :=
  { world with config }

def writeVault (path : String) (contents : Contents) :
    World Config Contents :=
  { world with
    vaults := fun other => if other = path then contents
      else world.vaults other }

end World

/-- A read is of the moment; what was read may be old when it is used. -/
def perform [DecidableEq Config] [DecidableEq Contents] :
    Process.Perform Nat (World Config Contents) (Call Config Contents)
      Answer :=
  fun _ world request answer =>
    match request, answer with
    | .readSyncer, syncer =>
      if syncer = world.syncer then some world else none
    | .readConfigError, reason =>
      if reason = world.configError then some world else none
    | .readConfig, config =>
      if config = world.config then some world else none
    | .openVault path, .ok contents =>
      if contents = world.vaults path then some world else none
    | .publish syncer, _ => some (world.publish syncer)
    | .writeConfig config, _ => some (world.writeConfig config)
    | .clearConfigError, _ => some { world with configError := none }
    | .writeVault path contents, .ok _ => some (world.writeVault path contents)
    | _, _ => some world

section Programs

variable (place : Place Config)

/-- The slot after a failed attempt. -/
def blocked (reason : String) :
    Program Config Contents (Option (Built Config Contents)) :=
  .call (.publish (.error reason)) fun _ => .done none

/-- `build_with_store`, and what `ensure_ready` makes of it. -/
def buildWithStore (config : Config) :
    Program Config Contents (Option (Built Config Contents)) :=
  .call (.openVault (place.vaultPath config)) fun
    | .error reason => blocked reason
    | .ok contents =>
      .call (.construct config contents) fun
        | .error reason => blocked reason
        | .ok _ =>
          .call .openStore fun
            | .error reason => blocked reason
            | .ok _ =>
              .call (.publish (.ok ⟨config, contents⟩)) fun _ =>
                .done (some ⟨config, contents⟩)

def ensureReady :
    Program Config Contents (Option (Built Config Contents)) :=
  .call .readSyncer fun
    | .ok syncer => .done (some syncer)
    | .error _ =>
      .call .readConfigError fun
        | some reason => blocked (place.configPath ++ ": " ++ reason)
        | none => .call .readConfig fun config => buildWithStore place config

def invalidate (reason : String) : Program Config Contents Unit :=
  .call (.publish (.error ("reloading — " ++ reason))) fun _ => .done ()

def replaceConfig (config : Config) : Program Config Contents Unit :=
  .call (.writeConfig config) fun _ =>
    .call .clearConfigError fun _ => invalidate "configuration changed"

/-- A save that stores credentials before anything else. -/
def storeSecrets (path : String) (contents : Contents)
    (config : Option Config) : Program Config Contents Unit :=
  .call (.writeVault path contents) fun
    | .error _ => .done ()
    | .ok _ =>
      match config with
      | some config => replaceConfig config
      | none => invalidate "a credential changed"

end Programs

inductive Job (Config Contents : Type) where
  | idle
  | ensureReady
  | replaceConfig (config : Config)
  | invalidate (reason : String)
  | storeSecrets (path : String) (contents : Contents)
      (config : Option Config)

def Job.program (place : Place Config) :
    Job Config Contents → Program Config Contents Unit
  | .idle => .done ()
  | .ensureReady => (Serve.ensureReady place).bind fun _ => .done ()
  | .replaceConfig config => Serve.replaceConfig config
  | .invalidate reason => Serve.invalidate reason
  | .storeSecrets path contents config =>
    Serve.storeSecrets path contents config

/-- Any number of calls on one instance, none of them begun. -/
def pool (place : Place Config) (world : World Config Contents)
    (jobs : Nat → Job Config Contents) :
    Process.Pool Nat (World Config Contents) (Call Config Contents) Answer
      Unit where
  world := world
  threads thread := (jobs thread).program place

/-- The slot is empty, or its syncer was built from what is in force. -/
def World.Current (place : Place Config) (world : World Config Contents) :
    Prop :=
  ∀ built, world.syncer = .ok built → built.config = world.config ∧
    built.contents = world.vaults (place.vaultPath world.config)

/-- The event changes the configuration or the vault. -/
inductive Writes : Event Config Contents → Prop where
  | config (thread : Nat) (config : Config) :
      Writes ⟨thread, .writeConfig config, ()⟩
  | vault (thread : Nat) (path : String) (contents : Contents) :
      Writes ⟨thread, .writeVault path contents, .ok ()⟩

/-- No setting is written between a build's reading of the configuration and
its publication. -/
def Undisturbed : Process.Condition Nat (World Config Contents)
    (Call Config Contents) Answer :=
  fun moment event => ∀ thread built,
    event = ⟨thread, .publish (.ok built), ()⟩ →
      ∀ earlier config later,
        moment.past = earlier ++ ⟨thread, .readConfig, config⟩ :: later →
          ∀ other ∈ later, ¬ Writes other

/-- Whether a thread that wrote a setting has yet to empty the slot. -/
def owesNext (thread : Nat) (owes : Bool) :
    Event Config Contents → Bool
  | ⟨other, .writeConfig _, _⟩ => other = thread || owes
  | ⟨other, .writeVault _ _, .ok _⟩ => other = thread || owes
  | ⟨other, .publish (.error _), _⟩ => other ≠ thread && owes
  | _ => owes

def owes (thread : Nat) (past : List (Event Config Contents)) : Bool :=
  past.foldl (owesNext thread) false

theorem owes_append (thread : Nat) (past : List (Event Config Contents))
    (event : Event Config Contents) :
    owes thread (past ++ [event]) =
      owesNext thread (owes thread past) event := by
  rw [owes, List.foldl_append]
  rfl

theorem owesNext_other {thread other : Nat} (different : other ≠ thread)
    (owed : Bool) (request : Call Config Contents)
    (answer : Answer request) :
    owesNext thread owed ⟨other, request, answer⟩ = owed := by
  cases request with
  | writeVault path contents =>
    cases answer <;> simp [owesNext, different]
  | publish syncer => cases syncer <;> simp [owesNext, different]
  | _ => simp [owesNext, different]

/-- A call that leaves the settings and the slot alone. -/
def Call.IsReading : Call Config Contents → Prop
  | .publish _ | .writeConfig _ | .writeVault _ _ => False
  | _ => True

theorem owesNext_reading {request : Call Config Contents}
    (reading : request.IsReading) (thread other : Nat) (owed : Bool)
    (answer : Answer request) :
    owesNext other owed ⟨thread, request, answer⟩ = owed := by
  cases request with
  | publish | writeConfig | writeVault => exact reading.elim
  | _ => rfl

section Protocol

variable [DecidableEq Config] [DecidableEq Contents] (place : Place Config)

/-- A syncer built from superseded values is on its way out. -/
def Promising (moment : Moment Config Contents) : Prop :=
  moment.world.Current place ∨ ∃ thread, owes thread moment.past = true

def rebuilding : Process.Protocol Nat (World Config Contents)
    (Call Config Contents) Answer where
  perform := perform
  condition := Undisturbed
  invariant := Promising place
  guarantee _ _ _ := True

variable {place} {thread : Nat} {before after : Moment Config Contents}

variable {request : Call Config Contents} {answer : Answer request}
  {config : Config} {property : World Config Contents → Prop}

theorem perform_reading (thread : Nat) {world next : World Config Contents}
    (reading : request.IsReading)
    (performed : perform thread world request answer = some next) :
    next.config = world.config ∧ next.vaults = world.vaults ∧
      next.syncer = world.syncer := by
  cases request with
  | publish | writeConfig | writeVault => exact reading.elim
  | readSyncer | readConfigError | readConfig =>
    simp only [perform] at performed
    split at performed
    · cases performed
      exact ⟨rfl, rfl, rfl⟩
    · cases performed
  | openVault path =>
    cases answer with
    | error reason =>
      cases performed
      exact ⟨rfl, rfl, rfl⟩
    | ok contents =>
      simp only [perform] at performed
      split at performed
      · cases performed
        exact ⟨rfl, rfl, rfl⟩
      · cases performed
  | construct | openStore | clearConfigError =>
    cases performed
    exact ⟨rfl, rfl, rfl⟩

theorem settings_kept {world next : World Config Contents}
    (kept : ¬ Writes ⟨thread, request, answer⟩)
    (performed : perform thread world request answer = some next) :
    next.config = world.config ∧ next.vaults = world.vaults := by
  cases request with
  | publish syncer =>
    cases performed
    exact ⟨rfl, rfl⟩
  | writeConfig config => exact absurd (.config thread config) kept
  | writeVault path contents =>
    cases answer with
    | error reason =>
      cases performed
      exact ⟨rfl, rfl⟩
    | ok _ => exact absurd (.vault thread path contents) kept
  | _ =>
    obtain ⟨config, vaults, -⟩ := perform_reading thread (by trivial) performed
    exact ⟨config, vaults⟩

/-- The thread has nothing left to empty. -/
def Clear (thread : Nat) (moment : Moment Config Contents) : Prop :=
  owes thread moment.past = false

theorem Clear.stable :
    (rebuilding place).Stable thread
      (Clear thread : Moment Config Contents → Prop) := by
  rintro before after clear ⟨other, different, -, -, request, answer,
    performed⟩
  rw [Clear, performed.past, owes_append, owesNext_other different]
  exact clear

theorem Clear.reading (clear : Clear thread before)
    (performed : Performed (rebuilding place) thread before request answer
      after) (reading : request.IsReading) : Clear thread after := by
  rw [Clear, performed.past, owes_append, owesNext_reading reading]
  exact clear

theorem Promising.reading
    (performed : Performed (rebuilding place) thread before request answer
      after) (reading : request.IsReading) : Promising place after := by
  rcases performed.holds with current | ⟨other, owed⟩
  · left
    obtain ⟨config, vaults, syncer⟩ :=
      perform_reading thread reading performed.performed
    intro built cached
    rw [syncer] at cached
    rw [config, vaults]
    exact current built cached
  · right
    refine ⟨other, ?_⟩
    rw [performed.past, owes_append, owesNext_reading reading]
    exact owed

theorem publish_error {reason : String}
    (performed : Performed (rebuilding place) thread before
      (.publish (.error reason)) () after) :
    Promising place after ∧ Clear thread after := by
  constructor
  · left
    have emptied := Option.some.inj performed.performed
    intro built cached
    rw [← emptied] at cached
    cases cached
  · rw [Clear, performed.past, owes_append]
    simp [owesNext]

/-- What has held of the settings since the thread read the configuration,
unless one was written. -/
def Since (thread : Nat) (config : Config)
    (property : World Config Contents → Prop)
    (moment : Moment Config Contents) : Prop :=
  ∃ earlier later,
    moment.past = earlier ++ ⟨thread, .readConfig, config⟩ :: later ∧
      ((∀ event ∈ later, ¬ Writes event) → property moment.world)

/-- A property of the settings alone. -/
def OfSettings (property : World Config Contents → Prop) : Prop :=
  ∀ world next : World Config Contents, next.config = world.config →
    next.vaults = world.vaults → property world → property next

theorem Since.step {other : Nat} {stronger : World Config Contents → Prop}
    (since : Since thread config property before)
    (performed : Performed (rebuilding place) other before request answer after)
    (kept : ¬ Writes ⟨other, request, answer⟩ → property before.world →
      stronger after.world) :
    Since thread config stronger after := by
  obtain ⟨earlier, later, whole, holds⟩ := since
  refine ⟨earlier, later ++ [⟨other, request, answer⟩], ?_, ?_⟩
  · rw [performed.past, whole, List.append_assoc, List.cons_append]
  · intro none
    apply kept (none _ (List.mem_append_right _ List.mem_cons_self))
    exact holds fun event member =>
      none event (List.mem_append_left _ member)

theorem Since.stable (settings : OfSettings property) :
    (rebuilding place).Stable thread (Since thread config property) := by
  apply Process.Protocol.Stable.of_performed
  intro other before request answer after performed since
  apply since.step performed
  intro kept holds
  obtain ⟨config, vaults⟩ := settings_kept kept performed.performed
  exact settings _ _ config vaults holds

/-- What a thread that writes no setting keeps to. -/
def Reading (thread : Nat) (config : Config)
    (property : World Config Contents → Prop)
    (moment : Moment Config Contents) : Prop :=
  Clear thread moment ∧ Since thread config property moment

theorem Reading.stable (settings : OfSettings property) :
    (rebuilding place).Stable thread (Reading thread config property) := by
  rintro before after ⟨clear, since⟩ others
  exact ⟨Clear.stable before after clear others,
    Since.stable settings before after since others⟩

theorem Reading.step (settings : OfSettings property)
    (reads : Reading thread config property before)
    (performed : Performed (rebuilding place) thread before request answer
      after) (reading : request.IsReading) :
    Reading thread config property after := by
  refine ⟨reads.1.reading performed reading, reads.2.step performed ?_⟩
  intro kept holds
  obtain ⟨sameConfig, sameVaults⟩ := settings_kept kept performed.performed
  exact settings _ _ sameConfig sameVaults holds

section Safety

variable {moment : Moment Config Contents}

theorem safe_blocked (reason : String) (clear : Clear thread moment) :
    Safe (rebuilding place) thread (fun _ after => Clear thread after)
      (blocked reason) moment := by
  apply Safe.call Clear.stable clear
  intro before answer after _ performed
  obtain ⟨promising, clear⟩ := publish_error performed
  exact ⟨promising, trivial, clear⟩

theorem safe_invalidate (reason : String) :
    Safe (rebuilding place) thread (fun _ after => Clear thread after)
      (invalidate reason) moment := by
  intro before _ answer after performed
  obtain ⟨promising, clear⟩ := publish_error performed
  exact ⟨promising, trivial, clear⟩

/-- The values a build goes by: what was read is in force, unless a setting was
written meanwhile. -/
def InForce (place : Place Config) (config : Config) (contents : Contents)
    (world : World Config Contents) : Prop :=
  world.config = config ∧ world.vaults (place.vaultPath config) = contents

omit [DecidableEq Config] [DecidableEq Contents] in
theorem InForce.ofSettings (config : Config) (contents : Contents) :
    OfSettings (InForce place config contents) := by
  rintro world next sameConfig sameVaults ⟨read, opened⟩
  exact ⟨sameConfig.trans read, sameVaults ▸ opened⟩

theorem publish_built {config : Config} {contents : Contents}
    (clear : Clear thread before)
    (since : Since thread config (InForce place config contents) before)
    (performed : Performed (rebuilding place) thread before
      (.publish (.ok ⟨config, contents⟩)) () after) :
    Promising place after ∧ Clear thread after := by
  obtain ⟨earlier, later, whole, holds⟩ := since
  obtain ⟨read, opened⟩ :=
    holds (performed.meets thread _ rfl earlier config later whole)
  constructor
  · left
    have published := Option.some.inj performed.performed
    intro built cached
    rw [← published] at cached ⊢
    cases cached
    exact ⟨read.symm, by rw [← opened, ← read]; rfl⟩
  · rw [Clear, performed.past, owes_append]
    exact clear

theorem safe_buildWithStore {config : Config} (clear : Clear thread moment)
    (since : Since thread config (fun world => world.config = config)
      moment) :
    Safe (rebuilding place) thread (fun _ after => Clear thread after)
      (buildWithStore place config) moment := by
  have ofConfig : OfSettings fun world : World Config Contents =>
      world.config = config := fun _ _ same _ holds => same.trans holds
  apply Safe.call (Reading.stable ofConfig) ⟨clear, since⟩
  rintro before answer after ⟨clear, since⟩ performed
  have cleared := clear.reading performed trivial
  refine ⟨.reading performed trivial, trivial, ?_⟩
  cases answer with
  | error reason => exact safe_blocked reason cleared
  | ok contents =>
    have stable : (rebuilding place).Stable thread
        (Reading thread config (InForce place config contents)) :=
      Reading.stable (InForce.ofSettings config contents)
    have opened : contents =
        before.world.vaults (place.vaultPath config) ∧
          before.world = after.world := by
      have step : (if contents =
          before.world.vaults (place.vaultPath config) then
            some before.world else none) = some after.world :=
        performed.performed
      split at step
      · rename_i same
        exact ⟨same, Option.some.inj step⟩
      · cases step
    have both : Since thread config (InForce place config contents)
        after := by
      apply since.step performed
      intro _ read
      rw [← opened.2]
      exact ⟨read, opened.1.symm⟩
    apply Safe.call stable ⟨cleared, both⟩
    intro before answer after reads performed
    have constructed := reads.step (InForce.ofSettings config contents)
      performed trivial
    refine ⟨.reading performed trivial, trivial, ?_⟩
    cases answer with
    | error reason => exact safe_blocked reason constructed.1
    | ok _ =>
      apply Safe.call stable constructed
      intro before answer after reads performed
      have stored := reads.step (InForce.ofSettings config contents)
        performed trivial
      refine ⟨.reading performed trivial, trivial, ?_⟩
      cases answer with
      | error reason => exact safe_blocked reason stored.1
      | ok _ =>
        apply Safe.call stable stored
        intro before answer after reads performed
        obtain ⟨promising, clear⟩ :=
          publish_built reads.1 reads.2 performed
        exact ⟨promising, trivial, clear⟩

theorem safe_ensureReady (clear : Clear thread moment) :
    Safe (rebuilding place) thread (fun _ after => Clear thread after)
      (ensureReady place) moment := by
  apply Safe.call Clear.stable clear
  intro before answer after clear performed
  have cleared := clear.reading performed trivial
  refine ⟨.reading performed trivial, trivial, ?_⟩
  cases answer with
  | ok syncer => exact cleared
  | error reason =>
    apply Safe.call Clear.stable cleared
    intro before answer after clear performed
    have cleared := clear.reading performed trivial
    refine ⟨.reading performed trivial, trivial, ?_⟩
    cases answer with
    | some reason => exact safe_blocked _ cleared
    | none =>
      apply Safe.call Clear.stable cleared
      intro before config after clear performed
      refine ⟨.reading performed trivial, trivial, ?_⟩
      apply safe_buildWithStore (clear.reading performed trivial)
      refine ⟨before.past, [], performed.past, fun _ => ?_⟩
      have step : (if config = before.world.config then
          some before.world else none) = some after.world :=
        performed.performed
      split at step
      · rename_i same
        rw [← Option.some.inj step]
        exact same.symm
      · cases step

omit [DecidableEq Config] [DecidableEq Contents] in
/-- A thread that has just written a setting is about to empty the slot. -/
theorem Promising.of_owes (owed : owes thread after.past = true) :
    Promising place after :=
  .inr ⟨thread, owed⟩

theorem safe_replaceConfig (config : Config) :
    Safe (rebuilding place) thread (fun _ after => Clear thread after)
      (replaceConfig config) moment := by
  intro before _ answer after performed
  have owed : owes thread after.past = true := by
    rw [performed.past, owes_append]
    simp [owesNext]
  refine ⟨.of_owes owed, trivial, ?_⟩
  intro before _ answer after performed
  exact ⟨.reading performed trivial, trivial, safe_invalidate _⟩

theorem safe_storeSecrets (path : String) (contents : Contents)
    (config : Option Config) (clear : Clear thread moment) :
    Safe (rebuilding place) thread (fun _ after => Clear thread after)
      (storeSecrets path contents config) moment := by
  apply Safe.call Clear.stable clear
  intro before answer after clear performed
  cases answer with
  | error reason =>
    have same := Option.some.inj performed.performed
    have owing : ∀ other, owes other after.past = owes other before.past := by
      intro other
      rw [performed.past, owes_append]
      rfl
    refine ⟨?_, trivial, (owing thread).trans clear⟩
    rcases performed.holds with current | ⟨other, owed⟩
    · exact .inl (same ▸ current)
    · exact .of_owes ((owing other).trans owed)
  | ok _ =>
    have owed : owes thread after.past = true := by
      rw [performed.past, owes_append]
      simp [owesNext]
    refine ⟨.of_owes owed, trivial, ?_⟩
    cases config with
    | some config => exact safe_replaceConfig config
    | none => exact safe_invalidate _

theorem safe_job (job : Job Config Contents) (clear : Clear thread moment) :
    Safe (rebuilding place) thread (fun _ after => Clear thread after)
      (job.program place) moment := by
  cases job with
  | idle => exact clear
  | ensureReady =>
    exact (safe_ensureReady clear).bind fun _ _ cleared => cleared
  | replaceConfig config => exact safe_replaceConfig config
  | invalidate reason => exact safe_invalidate reason
  | storeSecrets path contents config =>
    exact safe_storeSecrets path contents config clear

end Safety

end Protocol

/-- In every run in which no setting is written between a build's reading of
the configuration and its publication, once every call has finished the slot
is empty or holds a syncer built from the configuration and the vault in
force. -/
theorem current_of_undisturbed [DecidableEq Config] [DecidableEq Contents]
    (place : Place Config) (world : World Config Contents)
    (jobs : Nat → Job Config Contents) (begins : world.Current place)
    (trace : List (Event Config Contents))
    (reached : Process.Pool Nat (World Config Contents)
      (Call Config Contents) Answer Unit)
    (run : Process.Run perform Undisturbed (pool place world jobs) trace
      reached)
    (finished : ∀ thread, reached.threads thread = .done ()) :
    reached.world.Current place := by
  have sound : Process.Sound (rebuilding place)
      (fun thread _ after => Clear thread after) trace reached := by
    refine Process.Run.sound (fun _ _ => Clear.stable) run ⟨.inl begins, ?_⟩
    exact fun thread => safe_job (jobs thread) rfl
  rcases sound.holds with current | ⟨thread, owed⟩
  · exact current
  · have clear := sound.finished (finished thread)
    rw [Clear, owed] at clear
    cases clear

/-- An instance whose vault has one place. -/
def home : Place String := ⟨"sharerr.toml", fun _ => "vault.bin"⟩

def idleWorld : World String String :=
  ⟨"old settings", none, fun _ => "credentials", .error "starting"⟩

/-- The recovery loop builds a syncer; the operator saves new settings. -/
def buildAndSave : Nat → Job String String
  | 0 => .ensureReady
  | 1 => .replaceConfig "new settings"
  | _ => .idle

/-- A build up to its publication, from a slot emptied for `reason`. -/
def startsBuild (reason settings : String) : List (Event String String) :=
  [⟨0, .readSyncer, .error reason⟩, ⟨0, .readConfigError, none⟩,
    ⟨0, .readConfig, settings⟩, ⟨0, .openVault "vault.bin",
      .ok "credentials"⟩, ⟨0, .construct settings "credentials", .ok ()⟩,
    ⟨0, .openStore, .ok ()⟩]

def publishes (settings : String) : Event String String :=
  ⟨0, .publish (.ok ⟨settings, "credentials"⟩), ()⟩

def saves : List (Event String String) :=
  [⟨1, .writeConfig "new settings", ()⟩, ⟨1, .clearConfigError, ()⟩,
    ⟨1, .publish (.error "reloading — configuration changed"), ()⟩]

/-- What a run of the two threads leaves. -/
def view (reached : Process.Pool Nat (World String String)
    (Call String String) Answer Unit) :
    Option Unit × Option Unit × Except String (Built String String) ×
      String :=
  ((reached.threads 0).result?, (reached.threads 1).result?,
    reached.world.syncer, reached.world.config)

/-- A run of the two threads that saw both of them finish. -/
theorem run_of_view {condition : Process.Condition Nat
      (World String String) (Call String String) Answer}
    (check : Moment String String → Event String String → Bool)
    (checked : ∀ moment event, check moment event = true →
      condition moment event)
    (events : List (Event String String))
    (syncer : Except String (Built String String)) (config : String)
    (replayed : (Process.replay perform check []
        (pool home idleWorld buildAndSave) events).map view =
      some (some (), some (), syncer, config))
    (theirs : ∀ event ∈ events, event.thread < 2) :
    ∃ reached, Process.Run perform condition
        (pool home idleWorld buildAndSave) events reached ∧
      (∀ thread, reached.threads thread = .done ()) ∧
        reached.world.syncer = syncer ∧ reached.world.config = config := by
  obtain ⟨reached, run, seen⟩ :=
    Process.Run.exists_of_replay checked replayed
  simp only [view, Prod.mk.injEq] at seen
  obtain ⟨first, second, slot, settings⟩ := seen
  refine ⟨reached, run, fun thread => ?_, slot, settings⟩
  match thread with
  | 0 => exact Prog.eq_done_of_result? first
  | 1 => exact Prog.eq_done_of_result? second
  | other + 2 =>
    rw [run.untouched fun event member => by
      have := theirs event member
      omega]
    rfl

/-- Whether an event writes a setting. -/
def isWrite : Event String String → Bool
  | ⟨_, .writeConfig _, _⟩ => true
  | ⟨_, .writeVault _ _, .ok _⟩ => true
  | _ => false

/-- Whether nothing was written since a reading of the configuration. -/
def quietSince (thread : Nat) : List (Event String String) → Bool
  | [] => true
  | ⟨other, .readConfig, _⟩ :: later =>
    (other ≠ thread || later.all fun event => !isWrite event) &&
      quietSince thread later
  | _ :: later => quietSince thread later

theorem no_writes_of_quietSince {thread : Nat} {config : String}
    {earlier later : List (Event String String)}
    (quiet : quietSince thread
      (earlier ++ ⟨thread, .readConfig, config⟩ :: later) = true) :
    ∀ event ∈ later, ¬ Writes event := by
  induction earlier with
  | nil =>
    have still := (Bool.and_eq_true_iff.mp quiet).1
    simp only [ne_eq, not_true_eq_false, decide_false, Bool.false_or,
      List.all_eq_true] at still
    rintro event member (_ | _) <;> simpa [isWrite] using still _ member
  | cons event earlier ih =>
    apply ih
    unfold quietSince at quiet
    split at quiet
    · cases ‹_ = []›
    · rename_i whole
      cases whole
      exact (Bool.and_eq_true_iff.mp quiet).2
    · rename_i whole
      cases whole
      exact quiet

def undisturbed (moment : Moment String String) :
    Event String String → Bool
  | ⟨thread, .publish (.ok _), _⟩ => quietSince thread moment.past
  | _ => true

theorem undisturbed_of_check {moment : Moment String String}
    {event : Event String String}
    (checked : undisturbed moment event = true) :
    Undisturbed moment event := by
  rintro thread built rfl earlier config later whole
  rw [undisturbed, whole] at checked
  exact no_writes_of_quietSince checked

/-- The save comes first, and the syncer built after it is current. -/
theorem saved_then_built :
    ∃ trace reached, Process.Run perform Undisturbed
        (pool home idleWorld buildAndSave) trace reached ∧
      (∃ built, reached.world.syncer = .ok built) ∧
        reached.world.Current home := by
  obtain ⟨reached, run, finished, slot, -⟩ :=
    run_of_view undisturbed
      (fun _ _ checked => undisturbed_of_check checked)
      (saves ++ startsBuild "reloading — configuration changed"
        "new settings" ++ [publishes "new settings"])
      (.ok ⟨"new settings", "credentials"⟩) "new settings"
      (by decide +kernel) (by decide)
  refine ⟨_, reached, run, ⟨_, slot⟩, ?_⟩
  exact current_of_undisturbed home idleWorld buildAndSave nofun _ reached run
    finished

/-- The settings are saved between a build's readings and its publication,
and the syncer of the old settings stays. -/
theorem superseded_syncer_cached :
    ∃ trace reached, Process.Run perform .always
        (pool home idleWorld buildAndSave) trace reached ∧
      (∀ thread, reached.threads thread = .done ()) ∧
        ¬ reached.world.Current home := by
  obtain ⟨reached, run, finished, slot, settings⟩ :=
    run_of_view (fun _ _ => true) (fun _ _ _ => trivial)
      (startsBuild "starting" "old settings" ++ saves ++
        [publishes "old settings"]) (.ok ⟨"old settings", "credentials"⟩)
      "new settings" (by decide +kernel) (by decide)
  refine ⟨_, reached, run, finished, fun current => ?_⟩
  have same := (current _ slot).1
  rw [settings] at same
  revert same
  decide

end Serve

end Sharerr
