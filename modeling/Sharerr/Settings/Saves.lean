import Sharerr.Settings.Drift

/-!
# What a save keeps

A save makes its text while it holds the lock, so nobody writes another one
before it does, and it installs what the text means before it lets go.
-/

namespace Sharerr

namespace Settings

open Process (Prog Performed Safe)

variable {Cipher Doc Rest : Type} [DecidableEq Rest]

/-- What a call can change of what the handlers share. -/
inductive Change (thread : Nat) (before after : World Cipher Rest) :
    Call Rest → Prop where
  | quiet {request : Call Rest} (isQuiet : request.IsQuiet)
      (holder : after.holder = before.holder)
      (text : after.text = before.text)
      (config : after.config = before.config)
      (error : after.configError = before.configError) :
      Change thread before after request
  | lock (free : before.holder = none)
      (same : after = { before with holder := some thread }) :
      Change thread before after .lockConfigWrite
  | unlock (held : before.holder = some thread)
      (same : after = { before with holder := none }) :
      Change thread before after .unlockConfigWrite
  | write {recovered : Bool} {text : String}
      (same : after = { before with text := some text }) :
      Change thread before after (.writeFile recovered text)
  | install {config : Config Rest} (same : after = { before with config }) :
      Change thread before after (.writeConfig config)
  | clear (same : after = { before with configError := none }) :
      Change thread before after .clearConfigError

section Steps

variable {documents : Documents Doc Rest} {jobs : Nat → Job Doc}
variable {start : World Cipher Rest} {sealing : Sealing Cipher}
variable {master : String} {thread : Nat} {before after : Moment Cipher Rest}
variable {request : Call Rest} {answer : Answer request}

theorem change_of_performed
    (performed : Performed (keeping documents jobs start sealing master)
      thread before request answer after) :
    Change thread before.world after.world request := by
  have done := perform_of_keeping performed
  cases request with
  | lockConfigWrite =>
    obtain ⟨free, same⟩ := perform_lock done
    exact .lock free same
  | unlockConfigWrite =>
    obtain ⟨held, same⟩ := perform_unlock done
    exact .unlock held same
  | writeFile recovered text =>
    cases answer with
    | ok => exact .write (Option.some.inj done).symm
    | error failure =>
      have works : filesWork (.writeFile recovered text : Call Rest)
        (.error failure) = true := performed.meets.1
      cases works
  | writeConfig config => exact .install (Option.some.inj done).symm
  | clearConfigError => exact .clear (Option.some.inj done).symm
  | _ =>
    obtain ⟨holder, text, config, error⟩ := quiet_of_performed (by trivial) done
    exact .quiet trivial holder text config error

/-- Who else makes a call, and when it may. -/
theorem careful_of_others
    (others : (keeping documents jobs start sealing master).Others thread
      before after) :
    ∃ other, other ≠ thread ∧ ∃ request answer,
      Performed (keeping documents jobs start sealing master) other before
        request answer after ∧ Careful documents other before request := by
  obtain ⟨other, different, guarantee, -, request, answer, performed⟩ := others
  exact ⟨other, different, request, answer, performed,
    guarantee request answer performed.past⟩

omit [DecidableEq Rest] in
theorem Careful.of_quiet (quiet : request.IsQuiet) :
    Careful documents thread before request := by
  cases request with
  | lockConfigWrite | unlockConfigWrite | writeFile | writeConfig
  | clearConfigError => exact quiet.elim
  | _ => trivial

theorem keeping_of_quiet (quiet : request.IsQuiet)
    (performed : Performed (keeping documents jobs start sealing master)
      thread before request answer after) :
    (keeping documents jobs start sealing master).invariant after ∧
      (keeping documents jobs start sealing master).guarantee thread before
        after :=
  ⟨reconciled_of_quiet quiet performed,
    careful_of_past performed.past (Careful.of_quiet quiet)⟩

/-- What is left as it is while `thread` holds the lock and writes nothing. -/
structure Undisturbed (thread : Nat) (before after : Moment Cipher Rest) :
    Prop where
  holder : after.world.holder = some thread
  text : after.world.text = before.world.text
  config : after.world.config = before.world.config ∨
    after.world.config = before.world.config.withoutPeers
  error : after.world.configError = before.world.configError ∨
    after.world.configError = none
  wrote : ∀ other, wrote other after.past = wrote other before.past
  fresh : Fresh after.past ↔ Fresh before.past
  owes : owes thread after.past = owes thread before.past
  owesClear : owesClear thread after.past = owesClear thread before.past

omit [DecidableEq Rest] in
theorem owes_of_other {other : Nat} (different : other ≠ thread)
    (past : after.past = before.past ++ [⟨other, request, answer⟩]) :
    owes thread after.past = owes thread before.past ∧
      owesClear thread after.past = owesClear thread before.past := by
  rw [past, owes_append, owesClear_append]
  simp [different]

theorem undisturbed_of_others
    (others : (keeping documents jobs start sealing master).Others thread
      before after) (held : before.world.holder = some thread) :
    Undisturbed thread before after := by
  obtain ⟨other, different, request, answer, performed, careful⟩ :=
    careful_of_others others
  have past := performed.past
  obtain ⟨owes, owesClear⟩ := owes_of_other different past
  have change := change_of_performed performed
  have unwritten : request.writesFile = false := by
    cases change with
    | write same =>
      -- only the holder writes
      have holder : before.world.holder = some other := careful
      rw [held] at holder
      exact absurd (Option.some.inj holder).symm different
    | quiet isQuiet => exact isQuiet.plainStep.1
    | _ => rfl
  have wrote := wrote_of_unwritten unwritten past
  have fresh := fresh_of_unwritten unwritten past
  cases change with
  | quiet isQuiet holder text config error =>
    exact ⟨holder.trans held, text, .inl config, .inl error, wrote, fresh,
      owes, owesClear⟩
  | lock free =>
    rw [held] at free
    cases free
  | unlock holds =>
    rw [held] at holds
    exact absurd (Option.some.inj holds).symm different
  | write => cases unwritten
  | install same =>
    rcases careful with ⟨holder, -⟩ | ⟨-, without⟩
    · rw [held] at holder
      exact absurd (Option.some.inj holder).symm different
    · exact ⟨by rw [same]; exact held, by rw [same],
        .inr (by rw [same]; exact without), .inl (by rw [same]),
        wrote, fresh, owes, owesClear⟩
  | clear same =>
    exact ⟨by rw [same]; exact held, by rw [same], .inl (by rw [same]),
      .inr (by rw [same]), wrote, fresh, owes, owesClear⟩

theorem undisturbed_of_quiet (quiet : request.IsQuiet)
    (performed : Performed (keeping documents jobs start sealing master)
      thread before request answer after)
    (held : before.world.holder = some thread) :
    Undisturbed thread before after := by
  obtain ⟨holder, text, config, error⟩ :=
    quiet_of_performed quiet (perform_of_keeping performed)
  have plain := quiet.plainStep
  have past := performed.past
  exact ⟨holder.trans held, text, .inl config, .inl error,
    wrote_of_unwritten plain.1 past, fresh_of_unwritten plain.1 past,
    owes_of_plainStep plain past thread,
    owesClear_of_plainStep plain past thread⟩

/-- The thread holds the lock, and whatever it wrote is installed. -/
structure Locked (thread : Nat) (moment : Moment Cipher Rest) : Prop where
  held : moment.world.holder = some thread
  installed : owes thread moment.past = false
  cleared : owesClear thread moment.past = false

/-- The thread does not hold the lock, and whatever it wrote is installed. -/
structure Outside (thread : Nat) (moment : Moment Cipher Rest) : Prop where
  notHeld : moment.world.holder ≠ some thread
  installed : owes thread moment.past = false
  cleared : owesClear thread moment.past = false

/-- A text that may be written next, and what it means. -/
structure Prepared (documents : Documents Doc Rest) (jobs : Nat → Job Doc)
    (start : World Cipher Rest) (thread : Nat) (text : String)
    (config : Config Rest) (moment : Moment Cipher Rest) : Prop where
  locked : Locked thread moment
  built : ∃ saved, Built documents jobs start saved (some text) ∧
    ∀ other, (jobs other).saves = true →
      wrote other moment.past = true ∨ other = thread → other ∈ saved
  means : documents.validate text = .ok config

/-- The thread has written what `config` is the meaning of. -/
structure Rewritten (documents : Documents Doc Rest) (thread : Nat)
    (config : Config Rest) (moment : Moment Cipher Rest) : Prop where
  held : moment.world.holder = some thread
  means : Means documents moment.world config
  wrote : wrote thread moment.past = true

/-- The thread has installed what it has written. -/
structure Installed (thread : Nat) (moment : Moment Cipher Rest) : Prop where
  held : moment.world.holder = some thread
  installed : owes thread moment.past = false
  wrote : wrote thread moment.past = true

omit [DecidableEq Rest] in
theorem Locked.kept (locked : Locked thread before)
    (undisturbed : Undisturbed thread before after) : Locked thread after :=
  ⟨undisturbed.holder, undisturbed.owes.trans locked.installed,
    undisturbed.owesClear.trans locked.cleared⟩

variable {config : Config Rest} {text : String} {moment : Moment Cipher Rest}
  {α : Type} {edit : Doc → Except String Doc}

section

omit [DecidableEq Rest]

theorem Prepared.kept
    (prepared : Prepared documents jobs start thread text config before)
    (undisturbed : Undisturbed thread before after) :
    Prepared documents jobs start thread text config after := by
  obtain ⟨saved, built, all⟩ := prepared.built
  refine ⟨prepared.locked.kept undisturbed, ⟨saved, built, ?_⟩,
    prepared.means⟩
  intro other saves wrote
  rw [undisturbed.wrote other] at wrote
  exact all other saves wrote

theorem Rewritten.kept (written : Rewritten documents thread config before)
    (undisturbed : Undisturbed thread before after) :
    Rewritten documents thread config after :=
  ⟨undisturbed.holder, written.means.congr undisturbed.text,
    (undisturbed.wrote thread).trans written.wrote⟩

theorem Installed.kept (installed : Installed thread before)
    (undisturbed : Undisturbed thread before after) : Installed thread after :=
  ⟨undisturbed.holder, undisturbed.owes.trans installed.installed,
    (undisturbed.wrote thread).trans installed.wrote⟩

end

/-- What a holder of the lock keeps is stable. -/
theorem stable_of_kept {property : Moment Cipher Rest → Prop}
    (held : ∀ moment, property moment → moment.world.holder = some thread)
    (kept : ∀ before after, property before →
      Undisturbed thread before after → property after) :
    (keeping documents jobs start sealing master).Stable thread property := by
  intro before after holds others
  exact kept before after holds
    (undisturbed_of_others others (held before holds))

theorem Locked.stable : (keeping documents jobs start sealing master).Stable
    thread (Locked thread : Moment Cipher Rest → Prop) :=
  stable_of_kept (fun _ locked => locked.held)
    fun _ _ locked undisturbed => locked.kept undisturbed

theorem Prepared.stable :
    (keeping documents jobs start sealing master).Stable thread
      (Prepared documents jobs start thread text config :
        Moment Cipher Rest → Prop) :=
  stable_of_kept (fun _ prepared => prepared.locked.held)
    fun _ _ prepared undisturbed => prepared.kept undisturbed

theorem Rewritten.stable :
    (keeping documents jobs start sealing master).Stable thread
      (Rewritten documents thread config : Moment Cipher Rest → Prop) :=
  stable_of_kept (fun _ written => written.held)
    fun _ _ written undisturbed => written.kept undisturbed

theorem Installed.stable : (keeping documents jobs start sealing master).Stable
    thread (Installed thread : Moment Cipher Rest → Prop) :=
  stable_of_kept (fun _ installed => installed.held)
    fun _ _ installed undisturbed => installed.kept undisturbed

/-- Nobody takes the lock for another. -/
theorem notHeld_of_others
    (others : (keeping documents jobs start sealing master).Others thread
      before after) (notHeld : before.world.holder ≠ some thread) :
    after.world.holder ≠ some thread := by
  obtain ⟨other, different, request, answer, performed, -⟩ :=
    careful_of_others others
  cases change_of_performed performed with
  | quiet _ holder => rwa [holder]
  | lock _ same =>
    rw [same]
    exact fun held => different (Option.some.inj held)
  | unlock _ same =>
    rw [same]
    exact nofun
  | write same => rwa [same]
  | install same => rwa [same]
  | clear same => rwa [same]

theorem Outside.stable : (keeping documents jobs start sealing master).Stable
    thread (Outside thread : Moment Cipher Rest → Prop) := by
  intro before after outside others
  have notHeld := notHeld_of_others others outside.notHeld
  obtain ⟨other, different, request, answer, performed, -⟩ :=
    careful_of_others others
  obtain ⟨owes, owesClear⟩ := owes_of_other different performed.past
  exact ⟨notHeld, owes.trans outside.installed,
    owesClear.trans outside.cleared⟩

theorem Outside.of_quiet (outside : Outside thread before)
    (quiet : request.IsQuiet)
    (performed : Performed (keeping documents jobs start sealing master)
      thread before request answer after) : Outside thread after := by
  obtain ⟨holder, -⟩ :=
    quiet_of_performed quiet (perform_of_keeping performed)
  have plain := quiet.plainStep
  have past := performed.past
  refine ⟨by rw [holder]; exact outside.notHeld, ?_, ?_⟩
  · rw [owes_of_plainStep plain past]
    exact outside.installed
  · rw [owesClear_of_plainStep plain past]
    exact outside.cleared

theorem locked_of_lock {answer : Unit} (outside : Outside thread before)
    (performed : Performed (keeping documents jobs start sealing master)
      thread before .lockConfigWrite answer after) :
    (keeping documents jobs start sealing master).invariant after ∧
      (keeping documents jobs start sealing master).guarantee thread before
        after ∧ Locked thread after := by
  have plain : (Call.lockConfigWrite : Call Rest).IsPlainStep :=
    ⟨rfl, rfl, rfl⟩
  obtain ⟨-, same⟩ := perform_lock (perform_of_keeping performed)
  refine ⟨reconciled_of_lock performed,
    careful_of_past performed.past trivial, by rw [same], ?_, ?_⟩
  · rw [owes_of_plainStep plain performed.past]
    exact outside.installed
  · rw [owesClear_of_plainStep plain performed.past]
    exact outside.cleared

theorem outside_of_unlock {answer : Unit} (locked : Locked thread before)
    (performed : Performed (keeping documents jobs start sealing master)
      thread before .unlockConfigWrite answer after) :
    (keeping documents jobs start sealing master).invariant after ∧
      (keeping documents jobs start sealing master).guarantee thread before
        after ∧ Outside thread after := by
  have plain : (Call.unlockConfigWrite : Call Rest).IsPlainStep :=
    ⟨rfl, rfl, rfl⟩
  have careful : Careful documents thread before .unlockConfigWrite := by
    intro owing
    rw [locked.installed] at owing
    cases owing
  obtain ⟨-, same⟩ := perform_unlock (perform_of_keeping performed)
  refine ⟨reconciled_of_unlock performed careful (.inr locked.cleared),
    careful_of_past performed.past careful, by rw [same]; exact nofun, ?_, ?_⟩
  · rw [owes_of_plainStep plain performed.past]
    exact locked.installed
  · rw [owesClear_of_plainStep plain performed.past]
    exact locked.cleared

/-- What `prepare_config` ends with. -/
def PreparedOr (documents : Documents Doc Rest) (jobs : Nat → Job Doc)
    (start : World Cipher Rest) (thread : Nat) :
    Except String (PendingConfig Rest) → Moment Cipher Rest → Prop
  | .error _, moment => Outside thread moment
  | .ok pending, moment => Prepared documents jobs start thread pending.text
      pending.config moment

theorem safe_abandon (reason : String)
    {post : Except String α → Moment Cipher Rest → Prop}
    (locked : Locked thread moment)
    (outside : ∀ later, Outside thread later → post (.error reason) later) :
    Safe (keeping documents jobs start sealing master) thread post
      (abandon reason) moment := by
  apply Safe.call Locked.stable locked
  intro before answer after locked performed
  obtain ⟨holds, guarantee, done⟩ := outside_of_unlock locked performed
  exact ⟨holds, guarantee, outside after done⟩

theorem safe_prepareDocument {recovered : Bool} {document : Doc}
    (locked : Locked thread moment)
    (built : ∀ result, edit document = .ok result →
      ∃ saved, Built documents jobs start saved
          (some (documents.print result)) ∧
        ∀ other, (jobs other).saves = true →
          wrote other moment.past = true ∨ other = thread → other ∈ saved) :
    Safe (keeping documents jobs start sealing master) thread
      (PreparedOr documents jobs start thread)
      (prepareDocument documents recovered document edit) moment := by
  rw [prepareDocument]
  cases edited : edit document with
  | error reason => exact safe_abandon reason locked fun _ outside => outside
  | ok result =>
    simp only
    cases means : documents.validate (documents.print result) with
    | error reason => exact safe_abandon reason locked fun _ outside => outside
    | ok config => exact ⟨locked, built result edited, means⟩

/-- Nobody has written the file, which the instance runs without. -/
structure Unread (start : World Cipher Rest) (thread : Nat)
    (moment : Moment Cipher Rest) : Prop where
  locked : Locked thread moment
  fresh : Fresh moment.past
  refused : start.configError ≠ none

theorem Unread.stable : (keeping documents jobs start sealing master).Stable
    thread (Unread start thread : Moment Cipher Rest → Prop) :=
  stable_of_kept (fun _ unread => unread.locked.held)
    fun _ _ unread undisturbed =>
      ⟨unread.locked.kept undisturbed, undisturbed.fresh.mpr unread.fresh,
        unread.refused⟩

/-- An error is told as long as the instance runs without the file. -/
theorem unread_of_error {reason : String} (locked : Locked thread before)
    (performed : Performed (keeping documents jobs start sealing master)
      thread before .readConfigError (some reason) after) :
    Unread start thread after := by
  have holds : Reconciled documents jobs start before := performed.holds
  obtain ⟨told, -⟩ := perform_readConfigError (perform_of_keeping performed)
  have unadopted : ¬ Adopted documents start before := by
    intro adopted
    rw [holds.locked_error adopted locked.held locked.cleared] at told
    cases told
  have fresh : Fresh before.past := by
    by_contra touched
    exact unadopted (.inr touched)
  have quiet : (Call.readConfigError : Call Rest).IsQuiet := trivial
  have undisturbed := undisturbed_of_quiet quiet performed locked.held
  refine ⟨locked.kept undisturbed, undisturbed.fresh.mpr fresh, ?_⟩
  rw [← (holds.untouched fresh).2.2, ← told]
  exact Option.some_ne_none reason

theorem safe_replacement (own : (jobs thread).edit? = some edit)
    (unread : Unread start thread moment) :
    Safe (keeping documents jobs start sealing master) thread
      (PreparedOr documents jobs start thread)
      (.call .readConfig fun config => prepareDocument documents true
        (documents.replacement config) edit) moment := by
  apply Safe.call Unread.stable unread
  intro before config after unread performed
  have quiet : (Call.readConfig : Call Rest).IsQuiet := trivial
  obtain ⟨holds, guarantee⟩ := keeping_of_quiet quiet performed
  refine ⟨holds, guarantee, ?_⟩
  have undisturbed := undisturbed_of_quiet quiet performed unread.locked.held
  obtain ⟨read, -⟩ := perform_readConfig (perform_of_keeping performed)
  have began : Reconciled documents jobs start before := performed.holds
  rw [read, (began.untouched unread.fresh).2.1]
  apply safe_prepareDocument (unread.locked.kept undisturbed)
  intro result edited
  refine ⟨[thread], .replaced unread.refused own edited, ?_⟩
  intro other saves wrote
  rcases wrote with wrote | same
  · exact absurd (undisturbed.fresh.mpr unread.fresh) (not_fresh_of_wrote wrote)
  · exact List.mem_singleton.mpr same

omit [DecidableEq Rest] in
/-- An edit of the file as it is while the thread holds the lock. -/
theorem built_of_read (holds : Reconciled documents jobs start before)
    (own : (jobs thread).edit? = some edit) {document result : Doc}
    (parsed : documents.parse (before.world.text.getD "") = .ok document)
    (edited : edit document = .ok result) :
    ∃ saved, Built documents jobs start saved
        (some (documents.print result)) ∧
      ∀ other, (jobs other).saves = true →
        wrote other before.past = true ∨ other = thread → other ∈ saved := by
  obtain ⟨saved, built, -, all⟩ := holds.built
  refine ⟨saved ++ [thread], .edited built own parsed edited, ?_⟩
  intro other saves wrote
  rcases wrote with wrote | same
  · exact List.mem_append_left _ (all other saves wrote)
  · exact List.mem_append_right _ (List.mem_singleton.mpr same)

theorem safe_editing (own : (jobs thread).edit? = some edit)
    (locked : Locked thread moment) :
    Safe (keeping documents jobs start sealing master) thread
      (PreparedOr documents jobs start thread)
      (.call .readFile fun
        | .error reason => abandon reason
        | .ok text =>
          match documents.parse text with
          | .error reason => abandon reason
          | .ok document => prepareDocument documents false document edit)
      moment := by
  apply Safe.call Locked.stable locked
  intro before read after locked performed
  have quiet : (Call.readFile : Call Rest).IsQuiet := trivial
  obtain ⟨holds, guarantee⟩ := keeping_of_quiet quiet performed
  refine ⟨holds, guarantee, ?_⟩
  have undisturbed := undisturbed_of_quiet quiet performed locked.held
  have still := locked.kept undisturbed
  cases read with
  | error reason => exact safe_abandon reason still fun _ outside => outside
  | ok text =>
    obtain ⟨there, -⟩ := perform_readFile (perform_of_keeping performed)
    simp only
    cases parsed : documents.parse text with
    | error reason => exact safe_abandon reason still fun _ outside => outside
    | ok document =>
      apply safe_prepareDocument still
      intro result edited
      apply built_of_read holds own _ edited
      rw [undisturbed.text, ← there]
      exact parsed

theorem safe_prepareConfig (own : (jobs thread).edit? = some edit)
    (outside : Outside thread moment) :
    Safe (keeping documents jobs start sealing master) thread
      (PreparedOr documents jobs start thread)
      (prepareConfig documents edit) moment := by
  apply Safe.call Outside.stable outside
  intro before answer after outside performed
  obtain ⟨holds, guarantee, locked⟩ := locked_of_lock outside performed
  refine ⟨holds, guarantee, ?_⟩
  apply Safe.call Locked.stable locked
  intro before reason after locked performed
  have quiet : (Call.readConfigError : Call Rest).IsQuiet := trivial
  obtain ⟨holds, guarantee⟩ := keeping_of_quiet quiet performed
  refine ⟨holds, guarantee, ?_⟩
  cases reason with
  | some reason => exact safe_replacement own (unread_of_error locked performed)
  | none =>
    exact safe_editing own
      (locked.kept (undisturbed_of_quiet quiet performed locked.held))

/-- The thread writes what it has prepared. -/
theorem rewritten_of_write {recovered : Bool}
    {answer : Except WriteFailure Unit}
    (prepared : Prepared documents jobs start thread text config before)
    (performed : Performed (keeping documents jobs start sealing master)
      thread before (.writeFile recovered text) answer after) :
    answer = .ok () ∧
      (keeping documents jobs start sealing master).invariant after ∧
        (keeping documents jobs start sealing master).guarantee thread before
          after ∧ Rewritten documents thread config after := by
  obtain ⟨same, went, holds⟩ :=
    reconciled_of_write performed prepared.locked.held prepared.built
  have past := performed.past
  refine ⟨went, holds,
    careful_of_past past prepared.locked.held, ?_, ?_, ?_⟩
  · rw [same]
    exact prepared.locked.held
  · rw [Means, same]
    exact prepared.means
  · rw [past, wrote_append]
    simp [Call.writesFile]

theorem installed_of_install {answer : Unit}
    (rewritten : Rewritten documents thread config before)
    (performed : Performed (keeping documents jobs start sealing master)
      thread before (.writeConfig config) answer after) :
    (keeping documents jobs start sealing master).invariant after ∧
      (keeping documents jobs start sealing master).guarantee thread before
        after ∧ Installed thread after := by
  obtain ⟨same, holds⟩ := reconciled_of_install performed
    (not_fresh_of_wrote rewritten.wrote) (.inl rewritten.means)
  have past := performed.past
  refine ⟨holds, careful_of_past past (.inl ⟨rewritten.held, rewritten.means⟩),
    ?_, ?_, ?_⟩
  · rw [same]
    exact rewritten.held
  · rw [past, owes_append]
    simp [Call.writesFile, Call.installs]
  · rw [past, wrote_append, rewritten.wrote, Bool.true_or]

theorem locked_of_clear {answer : Unit} (installed : Installed thread before)
    (performed : Performed (keeping documents jobs start sealing master)
      thread before .clearConfigError answer after) :
    (keeping documents jobs start sealing master).invariant after ∧
      (keeping documents jobs start sealing master).guarantee thread before
        after ∧ Locked thread after ∧ wrote thread after.past = true := by
  obtain ⟨same, holds⟩ :=
    reconciled_of_clear performed (not_fresh_of_wrote installed.wrote)
  have past := performed.past
  refine ⟨holds, careful_of_past past trivial, ⟨?_, ?_, ?_⟩, ?_⟩
  · rw [same]
    exact installed.held
  · rw [past, owes_append, installed.installed]
    simp [Call.writesFile]
  · rw [past, owesClear_append]
    simp [Call.writesFile, Call.clears]
  · rw [past, wrote_append, installed.wrote, Bool.true_or]

/-- The end of a save. -/
structure Saved (thread : Nat) (moment : Moment Cipher Rest) : Prop where
  locked : Locked thread moment
  wrote : wrote thread moment.past = true

theorem Saved.stable : (keeping documents jobs start sealing master).Stable
    thread (Saved thread : Moment Cipher Rest → Prop) :=
  stable_of_kept (fun _ saved => saved.locked.held)
    fun _ _ saved undisturbed => ⟨saved.locked.kept undisturbed,
      (undisturbed.wrote thread).trans saved.wrote⟩

theorem safe_replaceConfig
    (rewritten : Rewritten documents thread config moment) :
    Safe (keeping documents jobs start sealing master) thread
      (fun _ after => Saved thread after) (replaceConfig config) moment := by
  apply Safe.call Rewritten.stable rewritten
  intro before answer after rewritten performed
  obtain ⟨holds, guarantee, installed⟩ :=
    installed_of_install rewritten performed
  refine ⟨holds, guarantee, ?_⟩
  apply Safe.call Installed.stable installed
  intro before answer after installed performed
  obtain ⟨holds, guarantee, locked, wrote⟩ :=
    locked_of_clear installed performed
  refine ⟨holds, guarantee, ?_⟩
  apply Safe.call Saved.stable ⟨locked, wrote⟩
  intro before answer after saved performed
  have quiet : (Call.invalidate "configuration changed" : Call Rest).IsQuiet :=
    trivial
  obtain ⟨holds, guarantee⟩ := keeping_of_quiet quiet performed
  have undisturbed := undisturbed_of_quiet quiet performed saved.locked.held
  exact ⟨holds, guarantee, saved.locked.kept undisturbed,
    (undisturbed.wrote thread).trans saved.wrote⟩

/-- A save that has been made. -/
structure Committed (thread : Nat) (moment : Moment Cipher Rest) : Prop where
  outside : Outside thread moment
  wrote : wrote thread moment.past = true

theorem safe_commitConfig (location : String) (next : Option String)
    {pending : PendingConfig Rest}
    (prepared : Prepared documents jobs start thread pending.text
      pending.config moment) :
    Safe (keeping documents jobs start sealing master) thread
      (fun _ after => Committed thread after)
      (commitConfig location next pending) moment := by
  apply Safe.call Prepared.stable prepared
  intro before answer after prepared performed
  obtain ⟨rfl, holds, guarantee, rewritten⟩ :=
    rewritten_of_write prepared performed
  refine ⟨holds, guarantee, (safe_replaceConfig rewritten).bind ?_⟩
  intro _ later saved
  apply Safe.call Saved.stable saved
  intro before answer after saved performed
  obtain ⟨holds, guarantee, outside⟩ := outside_of_unlock saved.locked performed
  refine ⟨holds, guarantee, outside, ?_⟩
  rw [performed.past, wrote_append, saved.wrote, Bool.true_or]

section

omit [DecidableEq Rest]

/-- A call that has nothing to do with the file or the configuration. -/
def Call.IsApart (request : Call Rest) : Prop :=
  request.IsQuiet ∧ request.readsConfig = false

theorem openVault_apart :
    (openVault : Program Rest (Except String Unit)).Only Call.IsApart :=
  ⟨⟨trivial, rfl⟩, fun _ => trivial⟩

theorem mutateVault_apart (mutation : Vault.Mutation) (purpose : String) :
    (mutateVault mutation purpose :
      Program Rest (Except String Unit)).Only Call.IsApart :=
  ⟨⟨trivial, rfl⟩, fun _ => trivial⟩

theorem applySecret_apart (key value : String) (clear : Bool) :
    (applySecret key value clear :
      Program Rest (Except String Bool)).Only Call.IsApart := by
  simp only [applySecret]
  split
  · trivial
  · apply openVault_apart.attempt
    intro _
    split
    · exact (mutateVault_apart _ _).attempt fun _ => trivial
    · exact (mutateVault_apart _ _).attempt fun _ => trivial

theorem rotateTrackerTokenIn_apart (new : String) :
    (rotateTrackerTokenIn new :
      Program Rest (Except String Unit)).Only Call.IsApart := by
  refine ⟨⟨trivial, rfl⟩, fun answered => ?_⟩
  obtain ⟨host, answer⟩ := answered
  cases answer with
  | error reason => trivial
  | ok answer =>
    refine Prog.Only.attempt ?_ fun _ => mutateVault_apart _ _
    simp only [preservePrevious]
    split
    · trivial
    · split
      · trivial
      · exact mutateVault_apart _ _

theorem mutateTrackerToken_apart (reason : String)
    {mutation : Program Rest (Except String Unit)}
    (apart : mutation.Only Call.IsApart) :
    (mutateTrackerToken reason mutation).Only Call.IsApart := by
  apply openVault_apart.attempt
  intro _
  apply apart.attempt
  intro _
  exact ⟨⟨trivial, rfl⟩, fun _ => ⟨⟨trivial, rfl⟩, fun _ => trivial⟩⟩

theorem rotateTrackerToken_apart (new : String) :
    (rotateTrackerToken new :
      Program Rest (Except String Unit)).Only Call.IsApart :=
  mutateTrackerToken_apart _ (rotateTrackerTokenIn_apart new)

theorem saveTrackerToken_apart (token : String) (clearToken : Bool) :
    (saveTrackerToken token clearToken :
      Program Rest (Except String Unit)).Only Call.IsApart := by
  simp only [saveTrackerToken]
  split
  · exact mutateTrackerToken_apart _
      ((mutateVault_apart _ _).attempt fun _ => mutateVault_apart _ _)
  · split
    · exact rotateTrackerToken_apart token
    · trivial

theorem generateSecret_apart (field : String) :
    (generateSecret field : Program Rest Response).Only Call.IsApart := by
  simp only [generateSecret]
  split
  · trivial
  · refine ⟨⟨trivial, rfl⟩, fun drawn => ?_⟩
    cases drawn with
    | error reason => trivial
    | ok generated =>
      refine (rotateTrackerToken_apart _).bind fun rotated => ?_
      cases rotated <;> trivial

theorem finalizeTracker_apart :
    (finalizeTracker : Program Rest Response).Only Call.IsApart := by
  refine (mutateTrackerToken_apart _ (mutateVault_apart _ _)).bind
    fun finalized => ?_
  cases finalized <;> trivial

theorem importOnePeer_apart (config : Config Rest) (hasVault : Bool)
    (peer : PeerImport) :
    ((importSteps documents config).importOnePeer hasVault peer).Only
      Call.IsApart := by
  refine ⟨⟨trivial, rfl⟩, fun key => ?_⟩
  refine Prog.Only.proceed _ fun key => ?_
  refine ⟨⟨trivial, rfl⟩, fun created => ?_⟩
  refine Prog.Only.proceed _ fun id => ?_
  refine Prog.Only.attempt ?_ fun _ => ?_
  · unfold ImportSteps.importLimits
    split
    · exact ⟨⟨trivial, rfl⟩, fun _ => trivial⟩
    · trivial
  · refine Prog.Only.attempt ?_ fun _ => ?_
    · exact whenPresent_only fun _ => ⟨⟨trivial, rfl⟩, fun _ => trivial⟩
    · refine Prog.Only.attempt (whenPresent_only fun _ => ?_) fun _ => ?_
      · unfold ImportSteps.importGossipKey
        split
        · exact ⟨⟨trivial, rfl⟩, fun _ => trivial⟩
        · trivial
      · exact whenPresent_only fun _ => ⟨⟨trivial, rfl⟩, fun _ => trivial⟩

end

theorem safe_prepared {program : Program Rest α}
    (apart : program.Only Call.IsApart)
    (prepared : Prepared documents jobs start thread text config moment) :
    Safe (keeping documents jobs start sealing master) thread
      (fun _ after => Prepared documents jobs start thread text config after)
      program moment := by
  refine Safe.of_only Prepared.stable ?_ apart prepared
  intro before request answer after apart prepared performed
  obtain ⟨holds, guarantee⟩ := keeping_of_quiet apart.1 performed
  exact ⟨holds, guarantee, prepared.kept
    (undisturbed_of_quiet apart.1 performed prepared.locked.held)⟩

theorem safe_outside {program : Program Rest α}
    (apart : program.Only Call.IsApart) (outside : Outside thread moment) :
    Safe (keeping documents jobs start sealing master) thread
      (fun _ after => Outside thread after) program moment := by
  refine Safe.of_only Outside.stable ?_ apart outside
  intro before request answer after apart outside performed
  obtain ⟨holds, guarantee⟩ := keeping_of_quiet apart.1 performed
  exact ⟨holds, guarantee, outside.of_quiet apart.1 performed⟩

end Steps

end Settings

end Sharerr
