import Sharerr.Process.History
import Sharerr.Process.Safety
import Sharerr.Settings.Slots

/-!
# The live configuration and `sharerr.toml`

A save writes the file and installs the configuration under one lock.  The
importer of peers reads the live configuration first, takes the lock for the
file alone and installs what it has read without it.  The two agree once all
have finished, as long as nobody installs another configuration between the two
ends of an import.
-/

namespace Sharerr

namespace Settings

open Process (Prog Performed Safe lately)

variable {Cipher Doc Rest : Type}

/-- What the file means. -/
def Means (documents : Documents Doc Rest) (world : World Cipher Rest)
    (config : Config Rest) : Prop :=
  documents.validate (world.text.getD "") = .ok config

/-- The live configuration is what the file means. -/
structure Loaded (documents : Documents Doc Rest)
    (world : World Cipher Rest) : Prop where
  accepted : world.configError = none
  means : Means documents world world.config

/-- The file was not accepted, and the instance runs without it. -/
structure Degraded (world : World Cipher Rest) : Prop where
  refused : world.configError ≠ none
  peers : world.config.peers = []

/-- The edit of a save. -/
def Job.edit? : Job Doc → Option (Doc → Except String Doc)
  | .writeConfig _ _ edit => some edit
  | .writeConfigAndSecret _ _ edit _ _ _ => some edit
  | .saveNotifications _ form edit =>
    (heartbeatInterval form.heartbeatSecs).toOption.map edit
  | .saveTracker _ edit _ _ => some edit
  | _ => none

/-- The request replaces `sharerr.toml` when it succeeds. -/
def Job.saves : Job Doc → Bool
  | .writeConfig _ _ _ | .writeConfigAndSecret _ _ _ _ _ _
  | .saveNotifications _ _ _ | .saveTracker _ _ _ _ | .importConfig _ => true
  | _ => false

/-- A text that the saves of some threads made, one after the other, each from
what the one before had left. -/
inductive Built (documents : Documents Doc Rest) (jobs : Nat → Job Doc)
    (start : World Cipher Rest) : List Nat → Option String → Prop where
  | start : Built documents jobs start [] start.text
  | edited {saved : List Nat} {text : Option String} {thread : Nat}
      {edit : Doc → Except String Doc} {document result : Doc} :
      Built documents jobs start saved text →
      (jobs thread).edit? = some edit →
      documents.parse (text.getD "") = .ok document →
      edit document = .ok result →
      Built documents jobs start (saved ++ [thread])
        (some (documents.print result))
  /-- The first save of an instance that runs without its file. -/
  | replaced {thread : Nat} {edit : Doc → Except String Doc} {result : Doc} :
      start.configError ≠ none →
      (jobs thread).edit? = some edit →
      edit (documents.replacement start.config) = .ok result →
      Built documents jobs start [thread] (some (documents.print result))
  | pasted {saved : List Nat} {text : Option String} {thread : Nat}
      {pasted : String} :
      Built documents jobs start saved text →
      jobs thread = .importConfig pasted →
      Built documents jobs start (saved ++ [thread]) (some pasted)
  /-- The `[[peers]]` block was drained. -/
  | stripped {saved : List Nat} {text : Option String} {document : Doc} :
      Built documents jobs start saved text →
      documents.parse (text.getD "") = .ok document →
      Built documents jobs start saved
        (some (documents.print (documents.clearPeers document)))

def Call.writesFile : Call Rest → Bool
  | .writeFile _ _ => true
  | _ => false

def Call.installs : Call Rest → Bool
  | .writeConfig _ => true
  | _ => false

def Call.clears : Call Rest → Bool
  | .clearConfigError => true
  | _ => false

def Call.readsConfig : Call Rest → Bool
  | .readConfig => true
  | _ => false

def Call.installsOther [DecidableEq Rest] (config : Config Rest) :
    Call Rest → Bool
  | .writeConfig other => other ≠ config
  | _ => false

/-- The file was read and written where this was asked. -/
def filesWork : (request : Call Rest) → Answer request → Bool
  | .readFile, .error _ => false
  | .writeFile _ _, .error _ => false
  | _, _ => true

/-- Since the thread read the live configuration, nobody installed another one
than `config`. -/
def sinceRead [DecidableEq Rest] (thread : Nat) (config : Config Rest)
    (past : List (Event Rest)) : Bool :=
  lately (fun event => event.thread = thread && event.request.readsConfig)
    (fun event => event.request.installsOther config) past

/-- The file is read and written without failure, and what is installed
without the lock is what nobody replaced since it was read. -/
def InOrder [DecidableEq Rest] :
    Process.Condition Nat (World Cipher Rest) (Call Rest) Answer :=
  fun moment event =>
    filesWork event.request event.answer = true ∧
      ∀ config, event.request = .writeConfig config →
        moment.world.holder ≠ some event.thread →
          sinceRead event.thread config moment.past = true

def wrote (thread : Nat) (past : List (Event Rest)) : Bool :=
  past.any fun event => event.thread = thread && event.request.writesFile

/-- The thread has written the file and not installed a configuration yet. -/
def owes (thread : Nat) (past : List (Event Rest)) : Bool :=
  lately (fun event => event.thread = thread && event.request.writesFile)
    (fun event => event.thread = thread && event.request.installs) past

/-- The thread has written the file and not cleared the error yet. -/
def owesClear (thread : Nat) (past : List (Event Rest)) : Bool :=
  lately (fun event => event.thread = thread && event.request.writesFile)
    (fun event => event.thread = thread && event.request.clears) past

/-- Nobody has written the file. -/
def Fresh (past : List (Event Rest)) : Prop :=
  ∀ event ∈ past, event.request.writesFile = false

section Events

variable {past : List (Event Rest)} {event : Event Rest} {thread : Nat}

theorem wrote_append : wrote thread (past ++ [event]) =
    (wrote thread past ||
      event.thread = thread && event.request.writesFile) := by
  simp [wrote]

theorem owes_append : owes thread (past ++ [event]) =
    (event.thread = thread && event.request.writesFile ||
      owes thread past &&
        !(event.thread = thread && event.request.installs)) :=
  Process.lately_append ..

theorem owesClear_append : owesClear thread (past ++ [event]) =
    (event.thread = thread && event.request.writesFile ||
      owesClear thread past &&
        !(event.thread = thread && event.request.clears)) :=
  Process.lately_append ..

theorem sinceRead_append [DecidableEq Rest] {config : Config Rest} :
    sinceRead thread config (past ++ [event]) =
      (event.thread = thread && event.request.readsConfig ||
        sinceRead thread config past &&
          !event.request.installsOther config) :=
  Process.lately_append ..

theorem fresh_append : Fresh (past ++ [event]) ↔
    Fresh past ∧ event.request.writesFile = false := by
  simp [Fresh, or_imp, forall_and]

theorem not_fresh_of_wrote (written : wrote thread past = true) :
    ¬ Fresh past := by
  intro fresh
  obtain ⟨event, member, holds⟩ := List.any_eq_true.mp written
  rw [fresh event member, Bool.and_false] at holds
  cases holds

end Events

section Performing

variable [DecidableEq Rest] {sealing : Sealing Cipher} {master : String}
variable {thread : Nat} {world after : World Cipher Rest}
variable {request : Call Rest} {answer : Answer request}

/-- A call that has nothing to do with the lock, the file or the live
configuration. -/
def Call.IsQuiet : Call Rest → Prop
  | .lockConfigWrite | .unlockConfigWrite | .writeFile _ _ | .writeConfig _
  | .clearConfigError => False
  | _ => True

theorem quiet_of_performed (quiet : request.IsQuiet)
    (performed : perform sealing master thread world request answer =
      some after) :
    after.holder = world.holder ∧ after.text = world.text ∧
      after.config = world.config ∧
        after.configError = world.configError := by
  cases request with
  | lockConfigWrite | unlockConfigWrite | writeFile | writeConfig
  | clearConfigError => exact quiet.elim
  | vault wanted =>
    obtain ⟨host, answer⟩ := answer
    obtain ⟨rfl, -⟩ := perform_vault performed
    exact ⟨rfl, rfl, rfl, rfl⟩
  | invalidate | resetLegacyTokenStatus =>
    cases performed
    exact ⟨rfl, rfl, rfl, rfl⟩
  | _ =>
    cases perform_reading (by trivial) performed
    exact ⟨rfl, rfl, rfl, rfl⟩

theorem perform_lock {answer : Unit}
    (performed : perform sealing master thread world .lockConfigWrite answer =
      some after) :
    world.holder = none ∧ after = { world with holder := some thread } := by
  simp only [perform] at performed
  split at performed
  · rename_i free
    exact ⟨free, (Option.some.inj performed).symm⟩
  · cases performed

theorem perform_unlock {answer : Unit}
    (performed : perform sealing master thread world .unlockConfigWrite
      answer = some after) :
    world.holder = some thread ∧ after = { world with holder := none } := by
  simp only [perform] at performed
  split at performed
  · rename_i held
    exact ⟨held, (Option.some.inj performed).symm⟩
  · cases performed

theorem perform_readConfigError {reason : Option String}
    (performed : perform sealing master thread world .readConfigError reason =
      some after) : reason = world.configError ∧ after = world := by
  simp only [perform] at performed
  split at performed
  · rename_i same
    exact ⟨same, (Option.some.inj performed).symm⟩
  · cases performed

theorem perform_readConfig {config : Config Rest}
    (performed : perform sealing master thread world .readConfig config =
      some after) : config = world.config ∧ after = world := by
  simp only [perform] at performed
  split at performed
  · rename_i same
    exact ⟨same, (Option.some.inj performed).symm⟩
  · cases performed

theorem perform_readFile {text : String}
    (performed : perform sealing master thread world .readFile (.ok text) =
      some after) : text = world.text.getD "" ∧ after = world := by
  simp only [perform] at performed
  split at performed
  · rename_i same
    exact ⟨same, (Option.some.inj performed).symm⟩
  · cases performed

end Performing

section Protocol

variable (documents : Documents Doc Rest) (jobs : Nat → Job Doc)
variable (start : World Cipher Rest)

/-- The file is one the instance runs with. -/
def Adopted (moment : Moment Cipher Rest) : Prop :=
  Loaded documents start ∨ ¬ Fresh moment.past

/-- The live configuration is what the file means, or the thread that wrote it
has still to install that. -/
def InStep (moment : Moment Cipher Rest) : Prop :=
  Means documents moment.world moment.world.config ∨
    (∃ thread, owes thread moment.past = true ∧
      moment.world.holder = some thread) ∨
      ∃ thread, owes thread moment.past = true ∧
        Means documents moment.world moment.world.config.withoutPeers

/-- Memory and file agree as far as the saves have got. -/
structure Reconciled (moment : Moment Cipher Rest) : Prop where
  untouched : Fresh moment.past → moment.world.text = start.text ∧
    moment.world.config = start.config ∧
      moment.world.configError = start.configError
  inStep : Adopted documents start moment → InStep documents moment
  accepted : Adopted documents start moment →
    moment.world.configError = none ∨
      ∃ thread, moment.world.holder = some thread ∧
        owesClear thread moment.past = true
  built : ∃ saved, Built documents jobs start saved moment.world.text ∧
    (Fresh moment.past → saved = []) ∧
      ∀ thread, (jobs thread).saves = true →
        wrote thread moment.past = true → thread ∈ saved

/-- When a thread may make a call that matters. -/
def Careful (thread : Nat) (before : Moment Cipher Rest) :
    Call Rest → Prop
  | .writeFile _ _ => before.world.holder = some thread
  | .writeConfig config =>
    before.world.holder = some thread ∧
        Means documents before.world config ∨
      before.world.holder ≠ some thread ∧
        config = before.world.config.withoutPeers
  | .unlockConfigWrite => owes thread before.past = true →
      Means documents before.world before.world.config.withoutPeers
  | _ => True

variable [DecidableEq Rest] (sealing : Sealing Cipher) (master : String)

def keeping :
    Process.Protocol Nat (World Cipher Rest) (Call Rest) Answer where
  perform := perform sealing master
  condition := InOrder
  invariant := Reconciled documents jobs start
  guarantee thread before after := ∀ request answer,
    after.past = before.past ++ [⟨thread, request, answer⟩] →
      Careful documents thread before request

end Protocol

section Steps

variable {documents : Documents Doc Rest} {jobs : Nat → Job Doc}
variable {start : World Cipher Rest}
variable {thread : Nat} {before after : Moment Cipher Rest}
variable {request : Call Rest} {answer : Answer request}

theorem careful_of_past
    (past : after.past = before.past ++ [⟨thread, request, answer⟩])
    (careful : Careful documents thread before request) :
    ∀ request answer,
      after.past = before.past ++ [⟨thread, request, answer⟩] →
        Careful documents thread before request := by
  intro other given same
  rw [past] at same
  cases List.singleton_inj.mp (List.append_cancel_left same)
  exact careful

theorem Means.congr {world other : World Cipher Rest} {config : Config Rest}
    (means : Means documents world config) (same : other.text = world.text) :
    Means documents other config := by
  rwa [Means, same]

theorem Adopted.step (adopted : Adopted documents start before)
    {event : Event Rest} (past : after.past = before.past ++ [event]) :
    Adopted documents start after := by
  refine adopted.imp_right fun touched fresh => ?_
  rw [past, fresh_append] at fresh
  exact touched fresh.1

/-- A call that writes no file leaves what has been adopted. -/
theorem Adopted.of_step (adopted : Adopted documents start after)
    {event : Event Rest} (past : after.past = before.past ++ [event])
    (unwritten : event.request.writesFile = false) :
    Adopted documents start before := by
  refine adopted.imp_right fun touched fresh => touched ?_
  rw [past, fresh_append]
  exact ⟨fresh, unwritten⟩

/-- A call that neither writes the file nor installs nor clears anything. -/
def Call.IsPlainStep (request : Call Rest) : Prop :=
  request.writesFile = false ∧ request.installs = false ∧
    request.clears = false

theorem Call.IsQuiet.plainStep (quiet : request.IsQuiet) :
    request.IsPlainStep := by
  cases request with
  | lockConfigWrite | unlockConfigWrite | writeFile | writeConfig
  | clearConfigError => exact quiet.elim
  | _ => exact ⟨rfl, rfl, rfl⟩

theorem owes_of_plainStep (plain : request.IsPlainStep)
    (past : after.past = before.past ++ [⟨thread, request, answer⟩])
    (other : Nat) : owes other after.past = owes other before.past := by
  rw [past, owes_append, plain.1, plain.2.1]
  simp

theorem owesClear_of_plainStep (plain : request.IsPlainStep)
    (past : after.past = before.past ++ [⟨thread, request, answer⟩])
    (other : Nat) :
    owesClear other after.past = owesClear other before.past := by
  rw [past, owesClear_append, plain.1, plain.2.2]
  simp

theorem wrote_of_unwritten (unwritten : request.writesFile = false)
    (past : after.past = before.past ++ [⟨thread, request, answer⟩])
    (other : Nat) : wrote other after.past = wrote other before.past := by
  rw [past, wrote_append, unwritten]
  simp

theorem fresh_of_unwritten (unwritten : request.writesFile = false)
    (past : after.past = before.past ++ [⟨thread, request, answer⟩]) :
    Fresh after.past ↔ Fresh before.past := by
  rw [past, fresh_append]
  exact and_iff_left unwritten

/-- The history of the file, after a call that does not write it. -/
theorem Reconciled.still_built (holds : Reconciled documents jobs start before)
    (unwritten : request.writesFile = false)
    (past : after.past = before.past ++ [⟨thread, request, answer⟩])
    (text : after.world.text = before.world.text) :
    ∃ saved, Built documents jobs start saved after.world.text ∧
      (Fresh after.past → saved = []) ∧
        ∀ thread, (jobs thread).saves = true →
          wrote thread after.past = true → thread ∈ saved := by
  obtain ⟨saved, built, fresh, all⟩ := holds.built
  refine ⟨saved, text ▸ built, ?_, fun other saves written => ?_⟩
  · rwa [fresh_of_unwritten unwritten past]
  · rw [wrote_of_unwritten unwritten past] at written
    exact all other saves written

/-- While nobody holds the lock, nobody is in the middle of a save. -/
theorem Reconciled.free (holds : Reconciled documents jobs start before)
    (adopted : Adopted documents start before)
    (free : before.world.holder = none) :
    (Means documents before.world before.world.config ∨
        ∃ thread, owes thread before.past = true ∧
          Means documents before.world before.world.config.withoutPeers) ∧
      before.world.configError = none := by
  constructor
  · rcases holds.inStep adopted with means | ⟨other, -, held⟩ | stripped
    · exact .inl means
    · rw [free] at held
      cases held
    · exact .inr stripped
  · rcases holds.accepted adopted with none | ⟨other, held, -⟩
    · exact none
    · rw [free] at held
      cases held

/-- Nor is anybody, while a thread holds it that has not written the file. -/
theorem Reconciled.locked (holds : Reconciled documents jobs start before)
    (adopted : Adopted documents start before)
    (held : before.world.holder = some thread)
    (unwritten : owes thread before.past = false) :
    Means documents before.world before.world.config ∨
      Means documents before.world before.world.config.withoutPeers := by
  rcases holds.inStep adopted with
    means | ⟨other, owing, holder⟩ | ⟨-, -, stripped⟩
  · exact .inl means
  · rw [held] at holder
    cases holder
    rw [unwritten] at owing
    cases owing
  · exact .inr stripped

theorem Reconciled.locked_error (holds : Reconciled documents jobs start before)
    (adopted : Adopted documents start before)
    (held : before.world.holder = some thread)
    (cleared : owesClear thread before.past = false) :
    before.world.configError = none := by
  rcases holds.accepted adopted with none | ⟨other, holder, owing⟩
  · exact none
  · rw [held] at holder
    cases holder
    rw [cleared] at owing
    cases owing

section Calls

variable [DecidableEq Rest] {sealing : Sealing Cipher} {master : String}

theorem perform_of_keeping
    (performed : Performed (keeping documents jobs start sealing master)
      thread before request answer after) :
    perform sealing master thread before.world request answer =
      some after.world :=
  performed.performed

theorem reconciled_of_quiet (quiet : request.IsQuiet)
    (performed : Performed (keeping documents jobs start sealing master)
      thread before request answer after) :
    Reconciled documents jobs start after := by
  obtain ⟨holder, text, config, error⟩ :=
    quiet_of_performed quiet (perform_of_keeping performed)
  have plain := quiet.plainStep
  have past := performed.past
  have holds : Reconciled documents jobs start before := performed.holds
  constructor
  · rw [fresh_of_unwritten plain.1 past, text, config, error]
    exact holds.untouched
  · intro adopted
    have held := holds.inStep (adopted.of_step past plain.1)
    simpa only [InStep, Means, owes_of_plainStep plain past, holder, text,
      config] using held
  · intro adopted
    have held := holds.accepted (adopted.of_step past plain.1)
    simpa only [owesClear_of_plainStep plain past, holder, error] using held
  · exact holds.still_built plain.1 past text

theorem reconciled_of_lock {answer : Unit}
    (performed : Performed (keeping documents jobs start sealing master)
      thread before .lockConfigWrite answer after) :
    Reconciled documents jobs start after := by
  obtain ⟨free, locked⟩ := perform_lock (perform_of_keeping performed)
  have plain : (Call.lockConfigWrite : Call Rest).IsPlainStep :=
    ⟨rfl, rfl, rfl⟩
  have past := performed.past
  have holds : Reconciled documents jobs start before := performed.holds
  constructor
  · rw [fresh_of_unwritten rfl past, locked]
    exact holds.untouched
  · intro adopted
    obtain ⟨means | ⟨other, owing, stripped⟩, -⟩ :=
      holds.free (adopted.of_step past rfl) free
    · exact .inl (locked ▸ means)
    · refine .inr (.inr ⟨other, ?_, locked ▸ stripped⟩)
      rwa [owes_of_plainStep plain past]
  · intro adopted
    exact .inl (locked ▸ (holds.free (adopted.of_step past rfl) free).2)
  · exact holds.still_built rfl past (by rw [locked])

theorem reconciled_of_unlock {answer : Unit}
    (performed : Performed (keeping documents jobs start sealing master)
      thread before .unlockConfigWrite answer after)
    (careful : Careful documents thread before .unlockConfigWrite)
    (cleared : before.world.configError = none ∨
      owesClear thread before.past = false) :
    Reconciled documents jobs start after := by
  obtain ⟨held, unlocked⟩ := perform_unlock (perform_of_keeping performed)
  have plain : (Call.unlockConfigWrite : Call Rest).IsPlainStep :=
    ⟨rfl, rfl, rfl⟩
  have past := performed.past
  have holds : Reconciled documents jobs start before := performed.holds
  constructor
  · rw [fresh_of_unwritten rfl past, unlocked]
    exact holds.untouched
  · intro adopted
    simp only [InStep, owes_of_plainStep plain past]
    rcases holds.inStep (adopted.of_step past rfl) with
      means | ⟨other, owing, holder⟩ | ⟨other, owing, stripped⟩
    · exact .inl (unlocked ▸ means)
    · rw [held] at holder
      cases holder
      exact .inr (.inr ⟨thread, owing, unlocked ▸ careful owing⟩)
    · exact .inr (.inr ⟨other, owing, unlocked ▸ stripped⟩)
  · intro adopted
    left
    rw [unlocked]
    rcases cleared with none | owing
    · exact none
    · exact holds.locked_error (adopted.of_step past rfl) held owing
  · exact holds.still_built rfl past (by rw [unlocked])

/-- A thread that holds the lock writes what its save made of the file. -/
theorem reconciled_of_write {recovered : Bool} {text : String}
    {answer : Except WriteFailure Unit}
    (performed : Performed (keeping documents jobs start sealing master)
      thread before (.writeFile recovered text) answer after)
    (held : before.world.holder = some thread)
    (built : ∃ saved, Built documents jobs start saved (some text) ∧
      ∀ other, (jobs other).saves = true →
        wrote other before.past = true ∨ other = thread → other ∈ saved) :
    after.world = { before.world with text := some text } ∧
      answer = .ok () ∧ Reconciled documents jobs start after := by
  have past := performed.past
  have wrote_now : owes thread after.past = true := by
    rw [past, owes_append]
    simp [Call.writesFile]
  have clears_later : owesClear thread after.past = true := by
    rw [past, owesClear_append]
    simp [Call.writesFile]
  have touched : ¬ Fresh after.past := by
    rw [past, fresh_append]
    exact fun fresh => nomatch fresh.2
  cases answer with
  | error reason => exact absurd performed.meets.1 (by simp [filesWork])
  | ok =>
    have same : after.world = { before.world with text := some text } :=
      (Option.some.inj performed.performed).symm
    refine ⟨same, rfl, fun fresh => absurd fresh touched, fun _ => ?_,
      fun _ => ?_, ?_⟩
    · exact .inr (.inl ⟨thread, wrote_now, by rw [same, held]⟩)
    · exact .inr ⟨thread, by rw [same, held], clears_later⟩
    · obtain ⟨saved, made, all⟩ := built
      rw [same]
      refine ⟨saved, made, fun fresh => absurd fresh touched, ?_⟩
      intro other saves written
      rw [past, wrote_append, Bool.or_eq_true, Bool.and_eq_true,
        decide_eq_true_eq] at written
      exact all other saves (written.imp_right fun own => own.1.symm)

/-- A thread installs what the file means, unless another one is about to
install that. -/
theorem reconciled_of_install {config : Config Rest} {answer : Unit}
    (performed : Performed (keeping documents jobs start sealing master)
      thread before (.writeConfig config) answer after)
    (touched : ¬ Fresh before.past)
    (means : Means documents before.world config ∨
      ∃ other, other ≠ thread ∧ owes other before.past = true ∧
        before.world.holder = some other) :
    after.world = { before.world with config } ∧
      Reconciled documents jobs start after := by
  have past := performed.past
  have same : after.world = { before.world with config } :=
    (Option.some.inj performed.performed).symm
  have holds : Reconciled documents jobs start before := performed.holds
  refine ⟨same, ?_, fun _ => ?_, fun adopted => ?_, ?_⟩
  · rw [fresh_of_unwritten rfl past]
    exact fun fresh => absurd fresh touched
  · rcases means with means | ⟨other, different, owing, held⟩
    · exact .inl (same ▸ means)
    · refine .inr (.inl ⟨other, ?_, by rw [same, held]⟩)
      rw [past, owes_append, owing]
      simp [Ne.symm different]
  · have held := holds.accepted (adopted.of_step past rfl)
    rw [same, past]
    simpa [owesClear_append, Call.clears, Call.writesFile] using held
  · exact holds.still_built rfl past (by rw [same])

theorem reconciled_of_clear {answer : Unit}
    (performed : Performed (keeping documents jobs start sealing master)
      thread before .clearConfigError answer after)
    (touched : ¬ Fresh before.past) :
    after.world = { before.world with configError := none } ∧
      Reconciled documents jobs start after := by
  have past := performed.past
  have same : after.world = { before.world with configError := none } :=
    (Option.some.inj performed.performed).symm
  have holds : Reconciled documents jobs start before := performed.holds
  refine ⟨same, ?_, fun adopted => ?_, fun _ => .inl (by rw [same]), ?_⟩
  · rw [fresh_of_unwritten rfl past]
    exact fun fresh => absurd fresh touched
  · have held := holds.inStep (adopted.of_step past rfl)
    rw [InStep, same, past]
    simpa [InStep, Means, owes_append, Call.installs, Call.writesFile]
      using held
  · exact holds.still_built rfl past (by rw [same])

end Calls

end Steps

end Settings

end Sharerr
