import Sharerr.Settings.Agreement

/-!
# Once all requests have finished

Every request ends without the lock and owes the instance nothing.  So where
nobody is left, what holds between any two calls is that the live configuration
is what the file means, and the file is what the saves made of it.
-/

namespace Sharerr

namespace Settings

open Process (Prog Performed Safe)

variable {Cipher Doc Rest : Type} [DecidableEq Rest]

section Requests

variable {documents : Documents Doc Rest} {jobs : Nat → Job Doc}
variable {start : World Cipher Rest} {sealing : Sealing Cipher}
variable {master : String} {thread : Nat} {moment : Moment Cipher Rest}

/-- What a request leaves behind with its response. -/
structure Concluded (jobs : Nat → Job Doc) (thread : Nat) (response : Response)
    (moment : Moment Cipher Rest) : Prop where
  outside : Outside thread moment
  wrote : (jobs thread).saves = true → isRedirection response = true →
    wrote thread moment.past = true

theorem wrote_of_performed {other : Nat} {before after : Moment Cipher Rest}
    {request : Call Rest} {answer : Answer request}
    (performed : Performed (keeping documents jobs start sealing master) other
      before request answer after) (written : wrote thread before.past = true) :
    wrote thread after.past = true := by
  rw [performed.past, wrote_append, written, Bool.true_or]

theorem Concluded.stable (response : Response) :
    (keeping documents jobs start sealing master).Stable thread
      (Concluded jobs thread response : Moment Cipher Rest → Prop) := by
  intro before after concluded others
  obtain ⟨other, -, request, answer, performed, -⟩ := careful_of_others others
  exact ⟨Outside.stable before after concluded.outside others,
    fun saves redirected =>
      wrote_of_performed performed (concluded.wrote saves redirected)⟩

section

omit [DecidableEq Rest]

theorem concluded_of_committed {response : Response}
    (committed : Committed thread moment) :
    Concluded jobs thread response moment :=
  ⟨committed.outside, fun _ _ => committed.wrote⟩

theorem concluded_of_rejected {message : String}
    (outside : Outside thread moment) :
    Concluded jobs thread (.rejected message) moment :=
  ⟨outside, fun _ redirected => nomatch redirected⟩

theorem concluded_of_other {response : Response}
    (leaves : (jobs thread).saves = false) (outside : Outside thread moment) :
    Concluded jobs thread response moment := by
  refine ⟨outside, fun saves => ?_⟩
  rw [leaves] at saves
  cases saves

end

theorem safe_concluded {program : Program Rest Response}
    (safe : Safe (keeping documents jobs start sealing master) thread
      (fun _ after => Outside thread after) program moment)
    (written : wrote thread moment.past = true) :
    Safe (keeping documents jobs start sealing master) thread
      (Concluded jobs thread) program moment := by
  have framed : Safe (keeping documents jobs start sealing master) thread
      (fun _ after => Outside thread after ∧ wrote thread after.past = true)
      program moment := by
    apply Safe.frame ?_ safe written
    intro other before request answer after performed written
    exact wrote_of_performed performed written
  exact framed.mono fun _ _ held => concluded_of_committed ⟨held.1, held.2⟩

variable {text location : String} {next : Option String}
  {edit : Doc → Except String Doc}

theorem safe_refusal {reason : String} {config : Config Rest}
    (prepared : Prepared documents jobs start thread text config moment) :
    Safe (keeping documents jobs start sealing master) thread
      (Concluded jobs thread) (refuse reason) moment := by
  apply Safe.call Prepared.stable prepared
  intro before answer after prepared performed
  obtain ⟨holds, guarantee, outside⟩ :=
    outside_of_unlock prepared.locked performed
  exact ⟨holds, guarantee, concluded_of_rejected outside⟩

theorem safe_commit {pending : PendingConfig Rest}
    (prepared : Prepared documents jobs start thread pending.text
      pending.config moment) :
    Safe (keeping documents jobs start sealing master) thread
      (Concluded jobs thread) (commitConfig location next pending) moment :=
  (safe_commitConfig location next prepared).mono
    fun _ _ committed => concluded_of_committed committed

theorem safe_configSave (own : (jobs thread).edit? = some edit)
    (outside : Outside thread moment) :
    Safe (keeping documents jobs start sealing master) thread
      (Concluded jobs thread) (writeConfig documents location next edit)
      moment := by
  refine (safe_prepareConfig own outside).bind ?_
  intro prepared later held
  cases prepared with
  | error reason => exact concluded_of_rejected held
  | ok pending => exact safe_commit held

theorem safe_invalidateUnlessCommitted {response : Response} (changed : Bool)
    (concluded : Concluded jobs thread response moment) :
    Safe (keeping documents jobs start sealing master) thread
      (Concluded jobs thread) (invalidateUnlessCommitted changed response)
      moment := by
  rw [invalidateUnlessCommitted]
  split
  · rename_i dropping
    have quiet : (Call.invalidate "a credential changed" : Call Rest).IsQuiet :=
      trivial
    apply Safe.call Outside.stable concluded.outside
    intro before answer after outside performed
    obtain ⟨holds, guarantee⟩ := keeping_of_quiet quiet performed
    refine ⟨holds, guarantee, outside.of_quiet quiet performed, ?_⟩
    intro _ redirected
    rw [redirected, Bool.not_true, Bool.and_false] at dropping
    cases dropping
  · exact concluded

theorem safe_secretSave {key value : String} {clear : Bool}
    (own : (jobs thread).edit? = some edit) (outside : Outside thread moment) :
    Safe (keeping documents jobs start sealing master) thread
      (Concluded jobs thread)
      (writeConfigAndSecret documents location next edit key value clear)
      moment := by
  refine (safe_prepareConfig own outside).bind ?_
  intro prepared later held
  cases prepared with
  | error reason => exact concluded_of_rejected held
  | ok pending =>
    refine (safe_prepared (applySecret_apart key value clear) held).bind ?_
    intro applied later held
    cases applied with
    | error reason => exact safe_refusal held
    | ok changed =>
      refine (safe_commitConfig location next held).bind ?_
      intro response later committed
      exact safe_invalidateUnlessCommitted changed
        (concluded_of_committed committed)

theorem safe_notificationsSave {isUrl : String → Bool}
    {form : NotificationsForm} {edit : Option Nat → Doc → Except String Doc}
    (own : jobs thread = .saveNotifications isUrl form edit)
    (outside : Outside thread moment) :
    Safe (keeping documents jobs start sealing master) thread
      (Concluded jobs thread) (saveNotifications documents isUrl form edit)
      moment := by
  simp only [saveNotifications]
  split
  · exact concluded_of_rejected outside
  · split
    · exact concluded_of_rejected outside
    · split
      · exact concluded_of_rejected outside
      · rename_i secs read
        have edits : (jobs thread).edit? = some (edit secs) := by
          rw [own, Job.edit?, read]
          rfl
        refine (safe_outside (applySecret_apart ..) outside).bind ?_
        intro applied later outside
        cases applied with
        | error reason => exact concluded_of_rejected outside
        | ok changed =>
          refine (safe_secretSave edits outside).bind ?_
          exact fun _ _ => safe_invalidateUnlessCommitted changed

theorem safe_trackerSave {token : String} {clearToken : Bool}
    (own : (jobs thread).edit? = some edit) (outside : Outside thread moment) :
    Safe (keeping documents jobs start sealing master) thread
      (Concluded jobs thread) (saveTracker documents next edit token clearToken)
      moment := by
  refine (safe_prepareConfig own outside).bind ?_
  intro prepared later held
  cases prepared with
  | error reason => exact concluded_of_rejected held
  | ok pending =>
    simp only
    split
    · exact safe_refusal held
    · refine (safe_prepared (saveTrackerToken_apart _ _) held).bind ?_
      intro saved later held
      cases saved with
      | error reason => exact safe_refusal held
      | ok _ => exact safe_commit held

omit [DecidableEq Rest] in
theorem prepared_of_pasted {config : Config Rest}
    (own : jobs thread = .importConfig text)
    (means : documents.validate text = .ok config)
    (holds : Reconciled documents jobs start moment)
    (locked : Locked thread moment) :
    Prepared documents jobs start thread text config moment := by
  obtain ⟨saved, built, -, all⟩ := holds.built
  refine ⟨locked, ⟨saved ++ [thread], .pasted built own, ?_⟩, means⟩
  intro other saves written
  rcases written with written | same
  · exact List.mem_append_left _ (all other saves written)
  · exact List.mem_append_right _ (List.mem_singleton.mpr same)

theorem safe_importConfig (drains : documents.Drains)
    (begins : Loaded documents start ∨ Degraded start)
    (own : jobs thread = .importConfig text) (outside : Outside thread moment) :
    Safe (keeping documents jobs start sealing master) thread
      (Concluded jobs thread) (importConfig documents text) moment := by
  rw [importConfig]
  cases means : documents.validate text with
  | error reason => exact concluded_of_rejected outside
  | ok config =>
    apply Safe.call Outside.stable outside
    intro before answer after outside performed
    obtain ⟨holds, guarantee, locked⟩ := locked_of_lock outside performed
    refine ⟨holds, guarantee, ?_⟩
    have prepared := prepared_of_pasted own means holds locked
    refine (safe_commitConfig "config" none prepared).bind ?_
    intro response later committed
    split
    · apply safe_concluded ?_ committed.wrote
      refine (safe_importPeers drains begins committed.outside
        fun _ => committed.wrote).bind ?_
      exact fun _ _ outside => outside
    · exact concluded_of_committed committed

theorem safe_job (drains : documents.Drains)
    (begins : Loaded documents start ∨ Degraded start)
    (outside : Outside thread moment) :
    Safe (keeping documents jobs start sealing master) thread
      (Concluded jobs thread) ((jobs thread).program documents) moment := by
  cases job : jobs thread with
  | idle => exact concluded_of_other (by rw [job]; rfl) outside
  | writeConfig => exact safe_configSave (by rw [job]; rfl) outside
  | writeConfigAndSecret =>
    exact safe_secretSave (by rw [job]; rfl) outside
  | saveNotifications => exact safe_notificationsSave job outside
  | saveTracker => exact safe_trackerSave (by rw [job]; rfl) outside
  | importConfig => exact safe_importConfig drains begins job outside
  | generateSecret field =>
    exact (safe_outside (generateSecret_apart field) outside).mono
      fun _ _ => concluded_of_other (by rw [job]; rfl)
  | finalizeTracker =>
    exact (safe_outside finalizeTracker_apart outside).mono
      fun _ _ => concluded_of_other (by rw [job]; rfl)
  | importPeers =>
    have leaves : (jobs thread).saves = false := by rw [job]; rfl
    have claimed : Claimed jobs thread moment := by
      intro saves
      rw [leaves] at saves
      cases saves
    refine (safe_importPeers drains begins outside claimed).bind ?_
    exact fun _ _ outside => concluded_of_other leaves outside

omit [DecidableEq Rest] in
/-- Nobody has made a call yet. -/
theorem reconciled_of_start (documents : Documents Doc Rest)
    (jobs : Nat → Job Doc) (start : World Cipher Rest) :
    Reconciled documents jobs start ⟨start, []⟩ := by
  have fresh : Fresh ([] : List (Event Rest)) :=
    fun _ member => nomatch member
  refine ⟨fun _ => ⟨rfl, rfl, rfl⟩, ?_, ?_, ⟨[], .start, fun _ => rfl, ?_⟩⟩
  · rintro (loaded | touched)
    · exact .inl loaded.means
    · exact absurd fresh touched
  · rintro (loaded | touched)
    · exact .inl loaded.accepted
    · exact absurd fresh touched
  · exact fun _ _ written => nomatch written

omit [DecidableEq Rest] in
/-- Where nobody is in the middle of anything, the configuration is what the
file means. -/
theorem loaded_of_outside (holds : Reconciled documents jobs start moment)
    (adopted : Adopted documents start moment)
    (outside : ∀ thread, Outside thread moment) :
    Loaded documents moment.world := by
  have unowed : ∀ thread, owes thread moment.past ≠ true := by
    intro thread owing
    rw [(outside thread).installed] at owing
    cases owing
  constructor
  · rcases holds.accepted adopted with none | ⟨thread, held, -⟩
    · exact none
    · exact absurd held (outside thread).notHeld
  · rcases holds.inStep adopted with
      means | ⟨thread, owing, -⟩ | ⟨thread, owing, -⟩
    · exact means
    · exact absurd owing (unowed thread)
    · exact absurd owing (unowed thread)

end Requests

/-- A save that was answered with a redirect. -/
def Accepted (jobs : Nat → Job Doc)
    (reached : Process.Pool Nat (World Cipher Rest) (Call Rest) Answer
      Response) (thread : Nat) : Prop :=
  (jobs thread).saves = true ∧
    ∃ location, reached.threads thread = .done (.redirect location)

/-- Any number of saves and imports, in any interleaving: once all have
finished, the live configuration is what the file means, and no accepted save
is missing from the file. -/
theorem running_matches_file (sealing : Sealing Cipher) (master : String)
    (documents : Documents Doc Rest) (drains : documents.Drains)
    (start : World Cipher Rest) (free : start.holder = none)
    (jobs : Nat → Job Doc) (trace : List (Event Rest))
    (reached : Process.Pool Nat (World Cipher Rest) (Call Rest) Answer
      Response)
    (run : Process.Run (perform sealing master) InOrder
      (pool documents start jobs) trace reached)
    (finished : ∀ thread, ∃ response,
      reached.threads thread = .done response)
    (begins : Loaded documents start ∨
      Degraded start ∧ ∃ thread, Accepted jobs reached thread) :
    Loaded documents reached.world ∧
      ∃ saved, Built documents jobs start saved reached.world.text ∧
        ∀ thread, Accepted jobs reached thread → thread ∈ saved := by
  have nobody : ∀ thread, Outside thread
      (⟨start, []⟩ : Moment Cipher Rest) := by
    intro thread
    refine ⟨?_, rfl, rfl⟩
    rw [free]
    exact nofun
  have sound : Process.Sound (keeping documents jobs start sealing master)
      (Concluded jobs) trace reached := by
    refine Process.Run.sound (fun _ => Concluded.stable) run ⟨?_, ?_⟩
    · exact reconciled_of_start documents jobs start
    · intro thread
      exact safe_job drains (begins.imp_right And.left) (nobody thread)
  have concluded : ∀ thread response, reached.threads thread = .done response →
      Concluded jobs thread response ⟨reached.world, trace⟩ :=
    fun _ _ done => sound.finished done
  have written : ∀ thread, Accepted jobs reached thread →
      wrote thread trace = true := by
    rintro thread ⟨saves, location, done⟩
    exact (concluded thread _ done).wrote saves rfl
  constructor
  · apply loaded_of_outside sound.holds
    · refine begins.imp_right ?_
      rintro ⟨-, thread, accepted⟩
      exact not_fresh_of_wrote (written thread accepted)
    · intro thread
      obtain ⟨response, done⟩ := finished thread
      exact (concluded thread response done).outside
  · obtain ⟨saved, built, -, all⟩ := sound.holds.built
    exact ⟨saved, built, fun thread accepted =>
      all thread accepted.1 (written thread accepted)⟩

theorem beforeBlock_plain (text : String) :
    '[' ∉ (beforeBlock text).toList ∧
      beforeBlock (beforeBlock text) = beforeBlock text := by
  have plain : ∀ character ∈ (beforeBlock text).toList, character ≠ '[' := by
    intro character member
    rw [beforeBlock, String.toList_ofList] at member
    simpa using List.mem_takeWhile_imp member
  refine ⟨fun member => plain _ member rfl, ?_⟩
  rw [beforeBlock, List.takeWhile_eq_self_iff.mpr (by simpa using plain),
    String.ofList_toList]

theorem plainDocuments_drains : plainDocuments.Drains := by
  intro text document config parsed valid
  cases parsed
  cases valid
  obtain ⟨absent, same⟩ := beforeBlock_plain text
  simp only [plainDocuments, id_eq, same, if_neg absent,
    Config.withoutPeers]

/-- An instance whose file holds one friend. -/
def friendWorld : World String String :=
  ⟨.start none, none, some "[", ⟨"", [samEntry]⟩, none, .fresh⟩

/-- The import of that friend, and a save. -/
def importAndSave : Nat → Job String
  | 0 => .importPeers
  | 1 => .writeConfig "server" none fun _ => .ok "tag"
  | _ + 2 => .idle

/-- What the import does up to its installation. -/
def drains : List (Event String) :=
  [⟨0, .readConfig, ⟨"", [samEntry]⟩⟩, ⟨0, .openStore, .ok ()⟩,
    ⟨0, .randomHex, .ok "key"⟩, ⟨0, .createPeer "Sam" "key" "all", .ok 1⟩,
    ⟨0, .lockConfigWrite, ()⟩, ⟨0, .readFile, .ok "["⟩,
    ⟨0, .writeFile false "", .ok ()⟩, ⟨0, .unlockConfigWrite, ()⟩]

def adopts : List (Event String) :=
  [⟨0, .writeConfig ⟨"", []⟩, ()⟩, ⟨0, .clearConfigError, ()⟩,
    ⟨0, .invalidate "configuration changed", ()⟩]

def prepares : List (Event String) :=
  [⟨1, .lockConfigWrite, ()⟩, ⟨1, .readConfigError, none⟩,
    ⟨1, .readFile, .ok ""⟩]

def commits : List (Event String) :=
  [⟨1, .writeFile false "tag", .ok ()⟩, ⟨1, .writeConfig ⟨"tag", []⟩, ()⟩,
    ⟨1, .clearConfigError, ()⟩, ⟨1, .invalidate "configuration changed", ()⟩,
    ⟨1, .unlockConfigWrite, ()⟩]

def inOrder (moment : Moment String String) (event : Event String) : Bool :=
  filesWork event.request event.answer &&
    match event.request with
    | .writeConfig config => moment.world.holder = some event.thread ||
        sinceRead event.thread config moment.past
    | _ => true

theorem inOrder_of_check {moment : Moment String String}
    {event : Event String} (checked : inOrder moment event = true) :
    InOrder moment event := by
  obtain ⟨works, installs⟩ := Bool.and_eq_true_iff.mp checked
  refine ⟨works, fun config wanted unlocked => ?_⟩
  rw [wanted] at installs
  simpa [unlocked] using installs

/-- A run of the two to their ends. -/
theorem run_of_importAndSave
    {condition : Process.Condition Nat (World String String) (Call String)
      Answer}
    (check : Moment String String → Event String → Bool)
    (checked : ∀ moment event, check moment event = true →
      condition moment event)
    (events : List (Event String)) (config : Config String)
    (replayed : (Process.replay (perform Vault.tagging "master") check []
        (pool plainDocuments friendWorld importAndSave) events).map
        (fun reached => ((reached.threads 0).result?,
          (reached.threads 1).result?, reached.world.text,
            reached.world.config)) =
      some (some .finished, some (.redirect "/settings?saved=server"),
        some "tag", config))
    (theirs : ∀ event ∈ events, event.thread < 2) :
    ∃ reached, Process.Run (perform Vault.tagging "master") condition
        (pool plainDocuments friendWorld importAndSave) events reached ∧
      (∀ thread, ∃ response, reached.threads thread = .done response) ∧
        Accepted importAndSave reached 1 ∧
          reached.world.text = some "tag" ∧ reached.world.config = config := by
  obtain ⟨reached, run, seen⟩ :=
    Process.Run.exists_of_replay checked replayed
  simp only [Prod.mk.injEq] at seen
  obtain ⟨first, second, text, config⟩ := seen
  have saved := Prog.eq_done_of_result? second
  refine ⟨reached, run, fun thread => ?_, ⟨rfl, _, saved⟩, text, config⟩
  match thread with
  | 0 => exact ⟨_, Prog.eq_done_of_result? first⟩
  | 1 => exact ⟨_, saved⟩
  | other + 2 =>
    refine ⟨.finished, ?_⟩
    rw [run.untouched fun event member => by
      have := theirs event member
      omega]
    rfl

theorem friendWorld_loaded : Loaded plainDocuments friendWorld :=
  ⟨rfl, by rw [Means]; decide⟩

/-- The save begins before the import has installed what it read, and installs
its own after that. -/
theorem import_before_save : ∃ trace reached,
    Process.Run (perform Vault.tagging "master") InOrder
        (pool plainDocuments friendWorld importAndSave) trace reached ∧
      Loaded plainDocuments reached.world := by
  obtain ⟨reached, run, finished, -, -⟩ := run_of_importAndSave inOrder
    (fun _ _ checked => inOrder_of_check checked)
    (drains ++ prepares ++ adopts ++ commits) ⟨"tag", []⟩
    (by decide +kernel) (by decide)
  refine ⟨_, reached, run, ?_⟩
  exact (running_matches_file Vault.tagging "master" plainDocuments
    plainDocuments_drains friendWorld rfl importAndSave _ reached run finished
    (.inl friendWorld_loaded)).1

/-- The whole save falls between what the import reads and what it installs:
the file has it, and the instance does not. -/
theorem import_undoes_save : ∃ trace reached,
    Process.Run (perform Vault.tagging "master")
        (fun _ event => filesWork event.request event.answer = true)
        (pool plainDocuments friendWorld importAndSave) trace reached ∧
      Loaded plainDocuments friendWorld ∧
        (∀ thread, ∃ response, reached.threads thread = .done response) ∧
          Accepted importAndSave reached 1 ∧
            ¬ Means plainDocuments reached.world reached.world.config := by
  obtain ⟨reached, run, finished, accepted, text, config⟩ :=
    run_of_importAndSave
      (fun _ event => filesWork event.request event.answer)
      (fun _ _ checked => checked)
      (drains ++ prepares ++ commits ++ adopts) ⟨"", []⟩
      (by decide +kernel) (by decide)
  refine ⟨_, reached, run, friendWorld_loaded, finished, accepted, ?_⟩
  rw [Means, text, config]
  decide

end Settings

end Sharerr
