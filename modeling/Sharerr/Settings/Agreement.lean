import Sharerr.Settings.Saves

/-!
# The live configuration agrees with the file

An import of peers strips the file under the lock, and installs without it what
it had read before.  That still fits when nobody installed anything else in
between.
-/

namespace Sharerr

namespace Settings

open Process (Prog Performed Safe)

variable {Cipher Doc Rest : Type} [DecidableEq Rest]

omit [DecidableEq Rest] in
/-- Without its `[[peers]]` block a document means the same, but for the
peers. -/
def Documents.Drains (documents : Documents Doc Rest) : Prop :=
  ∀ text document config, documents.parse text = .ok document →
    documents.validate text = .ok config →
      documents.validate (documents.print (documents.clearPeers document)) =
        .ok config.withoutPeers

section Imports

variable {documents : Documents Doc Rest} {jobs : Nat → Job Doc}
variable {start : World Cipher Rest} {sealing : Sealing Cipher}
variable {master : String} {thread other : Nat}
variable {before after : Moment Cipher Rest}
variable {request : Call Rest} {answer : Answer request}
variable {config : Config Rest}

/-- Unless another one was installed since it was read, the live configuration
is `config`, with its peers or without. -/
def Unmoved (thread : Nat) (config : Config Rest)
    (moment : Moment Cipher Rest) : Prop :=
  sinceRead thread config.withoutPeers moment.past = true →
    moment.world.config = config ∨ moment.world.config = config.withoutPeers

variable {moment : Moment Cipher Rest} {document : Doc}

theorem Unmoved.withoutPeers (unmoved : Unmoved thread config moment)
    (since : sinceRead thread config.withoutPeers moment.past = true) :
    moment.world.config.withoutPeers = config.withoutPeers := by
  rcases unmoved since with same | same
  · rw [same]
  · rw [same, Config.withoutPeers_withoutPeers]

/-- A call that does not read the configuration for the thread. -/
theorem sinceRead_of_step
    (past : after.past = before.past ++ [⟨other, request, answer⟩])
    (unread : other ≠ thread ∨ request.readsConfig = false)
    (since : sinceRead thread config after.past = true) :
    sinceRead thread config before.past = true ∧
      request.installsOther config = false := by
  rw [past, sinceRead_append] at since
  rcases unread with different | unread
  · simpa [different] using since
  · simpa [unread] using since

theorem Unmoved.step (unmoved : Unmoved thread config before)
    (unread : other ≠ thread ∨ request.readsConfig = false)
    (performed : Performed (keeping documents jobs start sealing master)
      other before request answer after) : Unmoved thread config after := by
  intro since
  obtain ⟨since, installs⟩ := sinceRead_of_step performed.past unread since
  have now := unmoved since
  cases change_of_performed performed with
  | quiet _ _ _ same => rwa [same]
  | lock _ same => rwa [same]
  | unlock _ same => rwa [same]
  | write same => rwa [same]
  | clear same => rwa [same]
  | install same =>
    right
    rw [same]
    simpa [Call.installsOther] using installs

theorem Unmoved.stable : (keeping documents jobs start sealing master).Stable
    thread (Unmoved thread config : Moment Cipher Rest → Prop) := by
  intro before after unmoved others
  obtain ⟨other, different, request, answer, performed, -⟩ :=
    careful_of_others others
  exact unmoved.step (.inl different) performed

theorem unmoved_of_read
    (performed : Performed (keeping documents jobs start sealing master)
      thread before .readConfig config after) :
    Unmoved thread config after := by
  intro _
  obtain ⟨read, same⟩ := perform_readConfig (perform_of_keeping performed)
  left
  rw [same, read]

/-- The save before an import, if there is one, has been made. -/
def Claimed (jobs : Nat → Job Doc) (thread : Nat)
    (moment : Moment Cipher Rest) : Prop :=
  (jobs thread).saves = true → wrote thread moment.past = true

theorem Claimed.step (claimed : Claimed jobs thread before)
    (performed : Performed (keeping documents jobs start sealing master)
      other before request answer after) : Claimed jobs thread after := by
  intro saves
  rw [performed.past, wrote_append, claimed saves, Bool.true_or]

/-- What an import relies on from its reading to its installation. -/
structure Since (documents : Documents Doc Rest) (jobs : Nat → Job Doc)
    (start : World Cipher Rest) (thread : Nat) (config : Config Rest)
    (moment : Moment Cipher Rest) : Prop where
  claimed : Claimed jobs thread moment
  adopted : Adopted documents start moment
  unmoved : Unmoved thread config moment

theorem Since.step (since : Since documents jobs start thread config before)
    (unread : other ≠ thread ∨ request.readsConfig = false)
    (performed : Performed (keeping documents jobs start sealing master)
      other before request answer after) :
    Since documents jobs start thread config after :=
  ⟨since.claimed.step performed, since.adopted.step performed.past,
    since.unmoved.step unread performed⟩

theorem Since.stable : (keeping documents jobs start sealing master).Stable
    thread (Since documents jobs start thread config :
      Moment Cipher Rest → Prop) := by
  intro before after since others
  obtain ⟨other, different, request, answer, performed, -⟩ :=
    careful_of_others others
  exact since.step (.inl different) performed

/-- Peers are read only where the file is the one the instance runs with. -/
theorem adopted_of_peers (begins : Loaded documents start ∨ Degraded start)
    (performed : Performed (keeping documents jobs start sealing master)
      thread before .readConfig config after) (some_ : config.peers ≠ []) :
    Adopted documents start before := by
  have holds : Reconciled documents jobs start before := performed.holds
  rcases begins with loaded | degraded
  · exact .inl loaded
  · right
    intro fresh
    obtain ⟨read, -⟩ := perform_readConfig (perform_of_keeping performed)
    rw [read, (holds.untouched fresh).2.1] at some_
    exact some_ degraded.peers

/-- The file is stripped and the lock still held. -/
structure Torn (documents : Documents Doc Rest) (thread : Nat)
    (moment : Moment Cipher Rest) : Prop where
  held : moment.world.holder = some thread
  means : Means documents moment.world moment.world.config.withoutPeers
  accepted : moment.world.configError = none
  wrote : wrote thread moment.past = true

theorem Torn.stable : (keeping documents jobs start sealing master).Stable
    thread (Torn documents thread : Moment Cipher Rest → Prop) := by
  refine stable_of_kept (fun _ (torn : Torn documents thread _) => torn.held)
    ?_
  intro before after torn undisturbed
  refine ⟨undisturbed.holder, ?_, ?_, (undisturbed.wrote thread).trans
    torn.wrote⟩
  · have means := torn.means.congr undisturbed.text
    rcases undisturbed.config with same | without
    · rwa [same]
    · rwa [without, Config.withoutPeers_withoutPeers]
  · rcases undisturbed.error with same | none
    · exact same.trans torn.accepted
    · exact none

/-- The file is what the import is about to install, or another thread is about
to install what it has written since. -/
def Stripped (documents : Documents Doc Rest) (thread : Nat)
    (config : Config Rest) (moment : Moment Cipher Rest) : Prop :=
  sinceRead thread config.withoutPeers moment.past = true →
    Means documents moment.world config.withoutPeers ∨
      ∃ other, other ≠ thread ∧ owes other moment.past = true ∧
        moment.world.holder = some other

/-- The import has let go of the lock and has still to install. -/
structure Pending (documents : Documents Doc Rest) (thread : Nat)
    (config : Config Rest) (moment : Moment Cipher Rest) : Prop where
  notHeld : moment.world.holder ≠ some thread
  wrote : wrote thread moment.past = true
  unmoved : Unmoved thread config moment
  stripped : Stripped documents thread config moment

theorem stripped_of_others (pending : Pending documents thread config before)
    (others : (keeping documents jobs start sealing master).Others thread
      before after) : Stripped documents thread config after := by
  obtain ⟨other, different, request, answer, performed, careful⟩ :=
    careful_of_others others
  have past := performed.past
  intro since
  obtain ⟨since, installs⟩ :=
    sinceRead_of_step past (.inl different) since
  have now := pending.stripped since
  cases change_of_performed performed with
  | quiet isQuiet holder text =>
    rcases now with means | ⟨writer, apart, owing, held⟩
    · exact .inl (means.congr text)
    · refine .inr ⟨writer, apart, ?_, holder.trans held⟩
      rwa [owes_of_plainStep isQuiet.plainStep past]
  | lock free same =>
    rcases now with means | ⟨writer, -, -, held⟩
    · exact .inl (means.congr (by rw [same]))
    · rw [free] at held
      cases held
  | unlock held same =>
    left
    rw [Means, same]
    rcases now with means | ⟨writer, -, owing, holder⟩
    · exact means
    · rw [held] at holder
      cases holder
      rw [← pending.unmoved.withoutPeers since]
      exact careful owing
  | write same =>
    right
    refine ⟨other, different, ?_, ?_⟩
    · rw [past, owes_append]
      simp [Call.writesFile]
    · rw [same]
      exact careful
  | @install new same =>
    rcases careful with ⟨-, means⟩ | ⟨unlocked, -⟩
    · left
      have wanted : new = config.withoutPeers := by
        simpa [Call.installsOther] using installs
      rw [← wanted]
      exact means.congr (by rw [same])
    · rcases now with means | ⟨writer, apart, owing, held⟩
      · exact .inl (means.congr (by rw [same]))
      · have another : other ≠ writer := by
          intro isWriter
          rw [isWriter] at unlocked
          exact unlocked held
        refine .inr ⟨writer, apart, ?_, by rw [same]; exact held⟩
        rwa [(owes_of_other another past).1]
  | clear same =>
    rcases now with means | ⟨writer, apart, owing, held⟩
    · exact .inl (means.congr (by rw [same]))
    · refine .inr ⟨writer, apart, ?_, by rw [same]; exact held⟩
      rw [past, owes_append, owing]
      simp [Call.installs, Call.writesFile]

theorem Pending.stable : (keeping documents jobs start sealing master).Stable
    thread (Pending documents thread config : Moment Cipher Rest → Prop) := by
  intro before after pending others
  refine ⟨notHeld_of_others others pending.notHeld, ?_,
    Unmoved.stable before after pending.unmoved others,
    stripped_of_others pending others⟩
  obtain ⟨other, -, request, answer, performed, -⟩ := careful_of_others others
  rw [performed.past, wrote_append, pending.wrote, Bool.true_or]

theorem torn_of_write (drains : documents.Drains)
    {answer : Except WriteFailure Unit}
    (parsed : documents.parse (before.world.text.getD "") = .ok document)
    (prepared : Prepared documents jobs start thread
      (documents.print (documents.clearPeers document)) config before)
    (adopted : Adopted documents start before)
    (performed : Performed (keeping documents jobs start sealing master)
      thread before (.writeFile false
        (documents.print (documents.clearPeers document))) answer after) :
    answer = .ok () ∧
      (keeping documents jobs start sealing master).invariant after ∧
        (keeping documents jobs start sealing master).guarantee thread before
          after ∧ Torn documents thread after := by
  have locked := prepared.locked
  have holds : Reconciled documents jobs start before := performed.holds
  obtain ⟨same, went, reconciled⟩ :=
    reconciled_of_write performed locked.held prepared.built
  have past := performed.past
  refine ⟨went, reconciled, careful_of_past past locked.held, ?_, ?_, ?_, ?_⟩
  · rw [same]
    exact locked.held
  · rw [Means, same]
    -- what the live configuration stood for before
    rcases holds.locked adopted locked.held locked.installed with
      means | means
    · exact drains _ document _ parsed means
    · exact drains _ document before.world.config.withoutPeers parsed means
  · rw [same]
    exact holds.locked_error adopted locked.held locked.cleared
  · rw [past, wrote_append]
    simp [Call.writesFile]

theorem pending_of_unlock {answer : Unit} (torn : Torn documents thread before)
    (unmoved : Unmoved thread config before)
    (performed : Performed (keeping documents jobs start sealing master)
      thread before .unlockConfigWrite answer after) :
    (keeping documents jobs start sealing master).invariant after ∧
      (keeping documents jobs start sealing master).guarantee thread before
        after ∧ Pending documents thread config after := by
  have careful : Careful documents thread before .unlockConfigWrite :=
    fun _ => torn.means
  obtain ⟨-, same⟩ := perform_unlock (perform_of_keeping performed)
  have past := performed.past
  refine ⟨reconciled_of_unlock performed careful (.inl torn.accepted),
    careful_of_past past careful, ?_, ?_,
    unmoved.step (.inr rfl) performed, ?_⟩
  · rw [same]
    exact nofun
  · rw [past, wrote_append, torn.wrote, Bool.true_or]
  · intro since
    left
    obtain ⟨since, -⟩ := sinceRead_of_step past (.inr rfl) since
    rw [← unmoved.withoutPeers since]
    exact torn.means.congr (by rw [same])

/-- What `strip_peers_block` ends with. -/
def StrippedOr (documents : Documents Doc Rest) (thread : Nat)
    (config : Config Rest) : Except String Unit → Moment Cipher Rest → Prop
  | .error _, moment => Outside thread moment
  | .ok _, moment => Pending documents thread config moment

/-- A stripped document that may be written. -/
structure Stripping (documents : Documents Doc Rest) (jobs : Nat → Job Doc)
    (start : World Cipher Rest) (thread : Nat) (document : Doc)
    (means : Config Rest) (moment : Moment Cipher Rest) : Prop where
  prepared : Prepared documents jobs start thread
    (documents.print (documents.clearPeers document)) means moment
  parsed : documents.parse (moment.world.text.getD "") = .ok document

theorem Stripping.stable {means : Config Rest} :
    (keeping documents jobs start sealing master).Stable thread
      (Stripping documents jobs start thread document means :
        Moment Cipher Rest → Prop) := by
  refine stable_of_kept (fun _ (stripping :
    Stripping documents jobs start thread document means _) =>
      stripping.prepared.locked.held) ?_
  intro before after stripping undisturbed
  refine ⟨stripping.prepared.kept undisturbed, ?_⟩
  rw [undisturbed.text]
  exact stripping.parsed

omit [DecidableEq Rest] in
/-- A document that was read under the lock, stripped. -/
theorem built_of_strip (holds : Reconciled documents jobs start before)
    (claimed : Claimed jobs thread before)
    (parsed : documents.parse (before.world.text.getD "") = .ok document) :
    ∃ saved, Built documents jobs start saved
        (some (documents.print (documents.clearPeers document))) ∧
      ∀ other, (jobs other).saves = true →
        wrote other before.past = true ∨ other = thread → other ∈ saved := by
  obtain ⟨saved, built, -, all⟩ := holds.built
  refine ⟨saved, .stripped built parsed, ?_⟩
  intro other saves wrote
  rcases wrote with wrote | rfl
  · exact all other saves wrote
  · exact all other saves (claimed saves)

theorem safe_strip (drains : documents.Drains) {means : Config Rest}
    (stripping : Stripping documents jobs start thread document means moment)
    (since : Since documents jobs start thread config moment)
    {next : Except WriteFailure Unit → Program Rest (Except String Unit)}
    (went : next (.ok ()) = .call .unlockConfigWrite fun _ => .done (.ok ())) :
    Safe (keeping documents jobs start sealing master) thread
      (StrippedOr documents thread config)
      (.call (.writeFile false
        (documents.print (documents.clearPeers document))) next) moment := by
  apply Safe.call (Stripping.stable.and Since.stable) ⟨stripping, since⟩
  intro before answer after both performed
  obtain ⟨stripping, since⟩ := both
  obtain ⟨rfl, holds, guarantee, torn⟩ := torn_of_write drains
    stripping.parsed stripping.prepared since.adopted performed
  have unmoved := since.unmoved.step (.inr rfl) performed
  refine ⟨holds, guarantee, ?_⟩
  rw [went]
  apply Safe.call (Torn.stable.and Unmoved.stable) ⟨torn, unmoved⟩
  intro before answer after both performed
  obtain ⟨torn, unmoved⟩ := both
  exact pending_of_unlock torn unmoved performed

theorem safe_stripPeersBlock (drains : documents.Drains)
    (outside : Outside thread moment)
    (since : Since documents jobs start thread config moment) :
    Safe (keeping documents jobs start sealing master) thread
      (StrippedOr documents thread config) (stripPeersBlock documents)
      moment := by
  apply Safe.call (Outside.stable.and Since.stable) ⟨outside, since⟩
  intro before answer after both performed
  obtain ⟨outside, since⟩ := both
  obtain ⟨holds, guarantee, locked⟩ := locked_of_lock outside performed
  have since := since.step (.inr rfl) performed
  refine ⟨holds, guarantee, ?_⟩
  apply Safe.call (Locked.stable.and Since.stable) ⟨locked, since⟩
  intro before read after both performed
  obtain ⟨locked, since⟩ := both
  have quiet : (Call.readFile : Call Rest).IsQuiet := trivial
  obtain ⟨holds, guarantee⟩ := keeping_of_quiet quiet performed
  have undisturbed := undisturbed_of_quiet quiet performed locked.held
  have still := locked.kept undisturbed
  have since := since.step (.inr rfl) performed
  refine ⟨holds, guarantee, ?_⟩
  cases read with
  | error reason => exact safe_abandon reason still fun _ outside => outside
  | ok text =>
    obtain ⟨there, -⟩ := perform_readFile (perform_of_keeping performed)
    simp only
    cases parsed : documents.parse text with
    | error reason => exact safe_abandon reason still fun _ outside => outside
    | ok document =>
      simp only
      cases valid : documents.validate
          (documents.print (documents.clearPeers document)) with
      | error reason =>
        exact safe_abandon reason still fun _ outside => outside
      | ok means =>
        have same : documents.parse (after.world.text.getD "") =
            .ok document := by
          rw [undisturbed.text, ← there]
          exact parsed
        have built := built_of_strip holds since.claimed same
        exact safe_strip drains ⟨⟨still, built, valid⟩, same⟩ since rfl

/-- The import has installed what it had read. -/
structure Adopting (thread : Nat) (moment : Moment Cipher Rest) : Prop where
  notHeld : moment.world.holder ≠ some thread
  installed : owes thread moment.past = false
  wrote : wrote thread moment.past = true

theorem Adopting.stable : (keeping documents jobs start sealing master).Stable
    thread (Adopting thread : Moment Cipher Rest → Prop) := by
  intro before after adopting others
  have notHeld := notHeld_of_others others adopting.notHeld
  obtain ⟨other, different, request, answer, performed, -⟩ :=
    careful_of_others others
  have past := performed.past
  refine ⟨notHeld,
    (owes_of_other different past).1.trans adopting.installed, ?_⟩
  rw [past, wrote_append, adopting.wrote, Bool.true_or]

/-- What the import installs fits the file, or another thread is about to
install. -/
theorem adopting_of_install {answer : Unit}
    (pending : Pending documents thread config before)
    (performed : Performed (keeping documents jobs start sealing master)
      thread before (.writeConfig config.withoutPeers) answer after) :
    (keeping documents jobs start sealing master).invariant after ∧
      (keeping documents jobs start sealing master).guarantee thread before
        after ∧ Adopting thread after := by
  have since : sinceRead thread config.withoutPeers before.past = true :=
    performed.meets.2 config.withoutPeers rfl pending.notHeld
  have past := performed.past
  obtain ⟨same, holds⟩ := reconciled_of_install performed
    (not_fresh_of_wrote pending.wrote) (pending.stripped since)
  refine ⟨holds, careful_of_past past
    (.inr ⟨pending.notHeld, (pending.unmoved.withoutPeers since).symm⟩),
    ?_, ?_, ?_⟩
  · rw [same]
    exact pending.notHeld
  · rw [past, owes_append]
    simp [Call.writesFile, Call.installs]
  · rw [past, wrote_append, pending.wrote, Bool.true_or]

theorem outside_of_clear {answer : Unit} (adopting : Adopting thread before)
    (performed : Performed (keeping documents jobs start sealing master)
      thread before .clearConfigError answer after) :
    (keeping documents jobs start sealing master).invariant after ∧
      (keeping documents jobs start sealing master).guarantee thread before
        after ∧ Outside thread after := by
  obtain ⟨same, holds⟩ :=
    reconciled_of_clear performed (not_fresh_of_wrote adopting.wrote)
  have past := performed.past
  refine ⟨holds, careful_of_past past trivial, ?_, ?_, ?_⟩
  · rw [same]
    exact adopting.notHeld
  · rw [past, owes_append, adopting.installed]
    simp [Call.writesFile]
  · rw [past, owesClear_append]
    simp [Call.writesFile, Call.clears]

theorem safe_adopt (pending : Pending documents thread config moment) :
    Safe (keeping documents jobs start sealing master) thread
      (fun _ after => Outside thread after)
      (replaceConfig config.withoutPeers) moment := by
  apply Safe.call Pending.stable pending
  intro before answer after pending performed
  obtain ⟨holds, guarantee, adopting⟩ := adopting_of_install pending performed
  refine ⟨holds, guarantee, ?_⟩
  apply Safe.call Adopting.stable adopting
  intro before answer after adopting performed
  obtain ⟨holds, guarantee, outside⟩ := outside_of_clear adopting performed
  refine ⟨holds, guarantee, ?_⟩
  have last : (.call (.invalidate "configuration changed") fun _ => .done () :
      Program Rest Unit).Only Call.IsApart :=
    ⟨⟨trivial, rfl⟩, fun _ => trivial⟩
  exact safe_outside last outside

theorem safe_since {α : Type} {program : Program Rest α}
    (apart : program.Only Call.IsApart) (outside : Outside thread moment)
    (since : Since documents jobs start thread config moment) :
    Safe (keeping documents jobs start sealing master) thread
      (fun _ after => Outside thread after ∧
        Since documents jobs start thread config after) program moment := by
  refine Safe.of_only (Outside.stable.and Since.stable) ?_ apart
    ⟨outside, since⟩
  intro before request answer after apart both performed
  obtain ⟨outside, since⟩ := both
  obtain ⟨holds, guarantee⟩ := keeping_of_quiet apart.1 performed
  exact ⟨holds, guarantee, outside.of_quiet apart.1 performed,
    since.step (.inr apart.2) performed⟩

theorem safe_drainPeers (drains : documents.Drains) (hasVault : Bool)
    (outside : Outside thread moment)
    (since : Since documents jobs start thread config moment) :
    Safe (keeping documents jobs start sealing master) thread
      (fun _ after => Outside thread after)
      ((importSteps documents config).drainPeers hasVault config.peers)
      moment := by
  have entries : ((importSteps documents config).importEach hasVault
      config.peers).Only Call.IsApart := by
    apply Prog.Only.fold
    intro _ peer _
    exact (importOnePeer_apart config hasVault peer).bind fun _ => trivial
  refine (safe_since entries outside since).bind ?_
  intro _ later both
  refine (safe_stripPeersBlock drains both.1 both.2).bind ?_
  intro stripped later held
  cases stripped with
  | error reason => exact held
  | ok _ => exact safe_adopt held

theorem safe_importPeers (drains : documents.Drains)
    (begins : Loaded documents start ∨ Degraded start)
    (outside : Outside thread moment) (claimed : Claimed jobs thread moment) :
    Safe (keeping documents jobs start sealing master) thread
      (fun _ after => Outside thread after) (importPeers documents) moment := by
  have claims : (keeping documents jobs start sealing master).Stable thread
      (Claimed jobs thread : Moment Cipher Rest → Prop) :=
    Process.Protocol.Stable.of_performed
      fun _ _ _ _ _ performed claimed => claimed.step performed
  apply Safe.call (Outside.stable.and claims) ⟨outside, claimed⟩
  intro before config after both performed
  obtain ⟨outside, claimed⟩ := both
  have quiet : (Call.readConfig : Call Rest).IsQuiet := trivial
  obtain ⟨holds, guarantee⟩ := keeping_of_quiet quiet performed
  have still := outside.of_quiet quiet performed
  refine ⟨holds, guarantee, ?_⟩
  unfold ImportSteps.importPeers
  split
  · exact still
  · rename_i some_
    have since : Since documents jobs start thread config after :=
      ⟨claimed.step performed,
        (adopted_of_peers begins performed some_).step performed.past,
        unmoved_of_read performed⟩
    apply Safe.call (Outside.stable.and Since.stable) ⟨still, since⟩
    intro before opened after both performed
    have apart : (Call.openStore : Call Rest).IsApart := ⟨trivial, rfl⟩
    obtain ⟨holds, guarantee⟩ := keeping_of_quiet apart.1 performed
    have still := both.1.of_quiet apart.1 performed
    have since := both.2.step (.inr apart.2) performed
    refine ⟨holds, guarantee, ?_⟩
    cases opened with
    | error reason => exact still
    | ok _ =>
      simp only [Prog.bind_done]
      split
      · refine (safe_since openVault_apart still since).bind ?_
        intro opened later both
        cases opened with
        | error reason => exact both.1
        | ok _ => exact safe_drainPeers drains true both.1 both.2
      · exact safe_drainPeers drains false still since

end Imports

end Settings

end Sharerr
