import Sharerr.Sync.Filed

/-!
# The trackers of an adopted torrent

When the endpoint moves, the client's tracker list is replaced by ours and the
trackers remembered for the torrent.  What is remembered was stored when the
torrent was adopted, or is what the client's export lists; what the list gained
since, or what was not read then, goes.
-/

namespace Sharerr

namespace Sync

open Process

/-- What the syncer last learned about a torrent's trackers from the client: the
file it exported, then the copy cached beside it. -/
inductive Recovery where
  | nothing
  | exported (data : TorrentFile)
  | compared (data : TorrentFile) (cached : Option TorrentFile)

def Recovery.next : Recovery → Event → Recovery
  | _, ⟨0, .seeder _ (.export_ _), .ok (some data)⟩ => .exported data
  | _, ⟨0, .seeder _ (.export_ _), _⟩ => .nothing
  | .exported data, ⟨0, .seeder _ (.readCached _), .ok cached⟩ =>
    .compared data cached
  | .exported _, ⟨0, _, _⟩ => .nothing
  | recovery, _ => recovery

def recovery (past : List Event) : Recovery :=
  past.foldl Recovery.next .nothing

/-- The trackers the export lists besides ours. -/
def Recovery.learned (announce : AnnounceSet) : Recovery → List String
  | .compared data cached =>
    match Torrent.readFromBytes data with
    | .ok torrent =>
      (foreignTiers torrent announce).filter
        fun url => url ∉ Seeder.cachedTiers cached
    | .error _ => []
  | _ => []

/-- The trackers remembered for an item: the stored ones, or else the ones
just learned. -/
def remembered (announce : AnnounceSet) (origins : OriginTable)
    (past : List Event) (key : ItemKey) : List String :=
  match Rust.collected origins key with
  | some origin => origin.upstream
  | none => (recovery past).learned announce

/-- The row of an item as the pass at work read it. -/
def RowRead (past : List Event) (key : ItemKey) (row : SharedItem) : Prop :=
  ∃ rows, Heard past .allItems (.ok rows) ∧
    knownItems (rows.map folded) key = some row

section Lists

-- `trackers` is what the client lists for a torrent after a run so far, and
-- `before` holds of the URLs that were ours before the run.
variable (trackers : List Event → String → List String)
variable (before : String → Prop) (syncer : Syncer)

/-- Where the client's list is replaced for a torrent sharerr did not add, what
the client lists is ours or remembered. -/
def ListsRemembered : Process.Condition Nat World Call Answer :=
  fun moment event =>
    ∀ key hash urls row announce origins,
      event.request = .seeder key (.setTrackers hash urls) →
        RowRead moment.past key row → row.createdBySharerr = false →
          Heard moment.past .announceSet (.ok announce) →
            Heard moment.past .itemOrigins (.ok origins) →
              ∀ url ∈ trackers moment.past hash,
                before url ∨ Ours moment.past url ∨
                  ∃ kept ∈ remembered announce origins moment.past key,
                    syncer.seeder.urls.parse kept = .ok url

/-- No list replaced for a torrent sharerr did not add loses a tracker that is
not ours. -/
def TrackersKept (past : List Event) : Prop :=
  ∀ earlier thread key hash urls answer later row,
    past = earlier ++
        ⟨thread, .seeder key (.setTrackers hash urls), answer⟩ :: later →
      RowRead earlier key row → row.createdBySharerr = false →
        ∀ url ∈ trackers earlier hash,
          url ∈ urls ∨ before url ∨ Ours earlier url

end Lists

section Proof

variable {trackers : List Event → String → List String}
variable {before : String → Prop} {syncer : Syncer}

/-- The rule, over the runs in which what the client lists is remembered. -/
def keeping (trackers : List Event → String → List String)
    (before : String → Prop) (syncer : Syncer) :
    Protocol Nat World Call Answer where
  perform := perform
  condition := ListsRemembered trackers before syncer
  invariant moment := TrackersKept trackers before moment.past
  guarantee _ _ _ := True

variable {event : Event} {past : List Event}

theorem TrackersKept.append (kept : TrackersKept trackers before past)
    (keeps : ∀ key hash urls row,
      event.request = .seeder key (.setTrackers hash urls) →
        RowRead past key row → row.createdBySharerr = false →
          ∀ url ∈ trackers past hash,
            url ∈ urls ∨ before url ∨ Ours past url) :
    TrackersKept trackers before (past ++ [event]) := by
  intro earlier thread key hash urls answer later row whole
  rcases split_last whole with ⟨rfl, same⟩ | ⟨rest, -, old⟩
  · exact keeps key hash urls row (same ▸ rfl)
  · exact kept earlier thread key hash urls answer rest row old

theorem trackersKept_of_no_set {thread : Nat} {earlier after : Moment}
    {request : Call} {answer : Answer request}
    (noSet : ∀ key hash urls, request ≠ .seeder key (.setTrackers hash urls))
    (performed : Performed (keeping trackers before syncer) thread earlier
      request answer after) : TrackersKept trackers before after.past := by
  rw [performed.past]
  exact TrackersKept.append performed.holds fun key hash urls _ same =>
    absurd same (noSet key hash urls)

/-- No cached copy is still to come that could matter. -/
def Recovery.Settled (recovery : Recovery) : Prop :=
  ∀ data, recovery = .exported data →
    ∃ reason, Torrent.readFromBytes data = .error reason

/-- Every event but a further export leaves what was learned. -/
theorem Recovery.learned_next {recovery : Recovery} (settled : recovery.Settled)
    (other : event.thread = 0 →
      ∀ key hash, event.request ≠ .seeder key (.export_ hash))
    (announce : AnnounceSet) :
    (recovery.next event).learned announce = recovery.learned announce ∧
      (recovery.next event).Settled := by
  unfold Recovery.next
  split
  · exact absurd rfl (other rfl _ _)
  · exact absurd rfl (other rfl _ _)
  · rename_i data _ _ cached
    obtain ⟨reason, failed⟩ := settled data rfl
    refine ⟨?_, fun _ impossible => nomatch impossible⟩
    simp only [Recovery.learned, failed]
  · exact ⟨rfl, fun _ impossible => nomatch impossible⟩
  · exact ⟨rfl, settled⟩

/-- What `confirmLive` keeps for an item is what is remembered for it. -/
structure Learned (announce : AnnounceSet) (origins : OriginTable)
    (key : ItemKey) (upstream : List String) (past : List Event) : Prop where
  same : remembered announce origins past key = upstream
  settled : Rust.collected origins key = none → (recovery past).Settled

variable {key : ItemKey}

theorem Learned.append {announce : AnnounceSet} {origins : OriginTable}
    {upstream : List String}
    (learned : Learned announce origins key upstream past)
    (other : event.thread = 0 →
      ∀ key hash, event.request ≠ .seeder key (.export_ hash)) :
    Learned announce origins key upstream (past ++ [event]) := by
  have next : recovery (past ++ [event]) = (recovery past).next event := by
    simp [recovery]
  obtain ⟨same, settled⟩ := learned
  unfold remembered at same
  cases stored : Rust.collected origins key with
  | some origin =>
    rw [stored] at same
    refine ⟨?_, fun none_ => by rw [stored] at none_; cases none_⟩
    rw [remembered, stored]
    exact same
  | none =>
    rw [stored] at same
    obtain ⟨kept, still⟩ :=
      Recovery.learned_next (settled stored) other announce
    refine ⟨?_, fun _ => next ▸ still⟩
    rw [remembered, stored]
    dsimp only at same ⊢
    rw [next, kept, same]

theorem Recovery.next_of_other {recovery : Recovery} {event : Event}
    (other : event.thread ≠ 0) : recovery.next event = recovery := by
  unfold Recovery.next
  split <;> first | rfl | exact absurd rfl other

theorem unshaken_learned (announce : AnnounceSet) (origins : OriginTable)
    (key : ItemKey) (upstream : List String) :
    Unshaken (Learned announce origins key upstream) :=
  fun _ _ learned other => learned.append fun same => absurd same other

section Programs

variable {key : ItemKey} {property : List Event → Prop} {moment : Moment}
variable {announce : AnnounceSet} {origins : OriginTable}

variable {request : Call} {after earlier : Moment} {hash : String}

theorem keeping_call {α : Type} {next : Answer request → Program α}
    {post : α → Moment → Prop} (unshaken : Unshaken property)
    (noSet : ∀ key hash urls, request ≠ .seeder key (.setTrackers hash urls))
    (holds : property moment.past)
    (rest : ∀ earlier answer after, property earlier.past →
      Performed (keeping trackers before syncer) 0 earlier request answer
          after →
        Safe (keeping trackers before syncer) 0 post (next answer) after) :
    Safe (keeping trackers before syncer) 0 post (.call request next)
      moment := by
  apply Safe.call unshaken.stable holds
  intro earlier answer after held performed
  exact ⟨trackersKept_of_no_set noSet performed, trivial,
    rest earlier answer after held performed⟩

theorem recovery_performed {thread : Nat} {answer : Answer request}
    (performed : Performed (keeping trackers before syncer) thread earlier
      request answer after) :
    recovery after.past =
      (recovery earlier.past).next ⟨thread, request, answer⟩ := by
  rw [performed.past]
  simp [recovery]

variable {upstream : List String} {known : SharedItem} {pass : PassContext}

theorem learned_of (unstored : Rust.collected origins key = none)
    (same : (recovery past).learned announce = upstream)
    (settled : (recovery past).Settled) :
    Learned announce origins key upstream past := by
  refine ⟨?_, fun _ => settled⟩
  rw [remembered, unstored]
  exact same

theorem safe_seeder_recoverUpstream (lasting : Lasting property)
    (hash : String) (unstored : Rust.collected origins key = none)
    (holds : property moment.past) :
    Safe (keeping trackers before syncer) 0
      (fun result after => property after.past ∧
        Learned announce origins key
          ((result.toOption.getD none).getD []) after.past)
      (Syncer.forItem key (syncer.seeder.recoverUpstream hash announce))
      moment := by
  apply keeping_call lasting.unshaken (by simp) holds
  intro earlier exported after held performed
  have later := lasting.seeder performed held
  have now := recovery_performed performed
  rw [Prog.lift_proceed]
  rcases exported with reason | _ | data
  · refine ⟨later, learned_of unstored ?_ ?_⟩ <;> rw [now]
    · rfl
    · exact fun _ impossible => by cases impossible
  · refine ⟨later, learned_of unstored ?_ ?_⟩ <;> rw [now]
    · rfl
    · exact fun _ impossible => by cases impossible
  · have state : recovery after.past = .exported data := now
    cases parsed : Torrent.readFromBytes data with
    | error reason =>
      simp only [context, Prog.proceed, parsed, Prog.lift]
      refine ⟨later, learned_of unstored ?_ ?_⟩ <;> rw [state]
      · rfl
      · rintro _ same
        cases same
        exact ⟨reason, parsed⟩
    | ok torrent =>
      simp only [context, Prog.proceed, parsed, Prog.lift]
      have unshaken : Unshaken fun past =>
          property past ∧ recovery past = .exported data := by
        refine lasting.unshaken.and fun past event same other => ?_
        rw [recovery, List.foldl_append]
        exact (Recovery.next_of_other other).trans same
      apply keeping_call unshaken (by simp) ⟨later, state⟩
      rintro earlier read after ⟨held, state⟩ performed
      have later := lasting.seeder performed held
      have now := recovery_performed performed
      rw [state] at now
      cases read with
      | error reason =>
        refine ⟨later, learned_of unstored ?_ ?_⟩ <;> rw [now]
        · rfl
        · exact fun _ impossible => by cases impossible
      | ok cached =>
        refine ⟨later, learned_of unstored ?_ ?_⟩ <;> rw [now]
        · simp only [Recovery.next, Recovery.learned, parsed]
          rfl
        · exact fun _ impossible => by cases impossible

theorem safe_recoverUpstream (lasting : Lasting property) (hash : String)
    (unstored : Rust.collected origins key = none)
    (holds : property moment.past) :
    Safe (keeping trackers before syncer) 0
      (fun upstream after => property after.past ∧
        Learned announce origins key upstream after.past)
      (syncer.recoverUpstream key hash announce) moment := by
  apply (safe_seeder_recoverUpstream lasting hash unstored holds).bind
  rintro result moment ⟨holds, learned⟩
  cases result with
  | error reason => exact ⟨holds, learned⟩
  | ok upstream =>
    have unshaken := lasting.unshaken.and
      (unshaken_learned announce origins key (upstream.getD []))
    apply keeping_call unshaken (by simp) ⟨holds, learned⟩
    rintro earlier answer after ⟨held, learned⟩ performed
    refine ⟨?_, ?_⟩ <;> rw [performed.past]
    · exact lasting _ _ held fun _ => id
    · exact learned.append fun _ _ _ same => nomatch same

/-- What is known of the trackers of a torrent sharerr did not add. -/
def Knows (known : SharedItem) (announce : AnnounceSet)
    (origins : OriginTable) (key : ItemKey) (upstream : List String)
    (past : List Event) : Prop :=
  known.createdBySharerr = false →
    Learned announce origins key upstream past

theorem Knows.append (knows : Knows known announce origins key upstream past)
    (other : event.thread = 0 →
      ∀ key hash, event.request ≠ .seeder key (.export_ hash)) :
    Knows known announce origins key upstream (past ++ [event]) :=
  fun adopted => (knows adopted).append other

theorem unshaken_knows (known : SharedItem) (announce : AnnounceSet)
    (origins : OriginTable) (key : ItemKey) (upstream : List String) :
    Unshaken (Knows known announce origins key upstream) :=
  fun _ _ knows other => knows.append fun same => absurd same other

theorem safe_upstreamOf (lasting : Lasting property) (pass : PassContext)
    (known : SharedItem) (hash : String) (holds : property moment.past) :
    Safe (keeping trackers before syncer) 0
      (fun upstream after => property after.past ∧
        Knows known pass.announce pass.origins key upstream after.past)
      (syncer.upstreamOf pass key known hash) moment := by
  unfold Syncer.upstreamOf
  split
  · rename_i origin stored
    refine ⟨holds, fun _ => ⟨?_, fun unstored => ?_⟩⟩
    · rw [remembered, show Rust.collected pass.origins key = some origin
        from stored]
    · cases stored.symm.trans unstored
  · rename_i unstored
    split
    · rename_i created
      refine ⟨holds, fun adopted => ?_⟩
      rw [adopted] at created
      cases created
    · exact (safe_recoverUpstream lasting hash unstored holds).mono
        fun _ _ both => ⟨both.1, fun _ => both.2⟩

theorem keepsPlain_keeping : KeepsPlain (keeping trackers before syncer) where
  guaranteed := fun _ _ _ => trivial
  kept := by
    intro thread earlier request answer after plain performed
    apply trackersKept_of_no_set _ performed
    rintro key hash urls rfl
    exact plain trivial

theorem safe_ratioLimitOf (lasting : Lasting property) (known : SharedItem)
    (hash : String) (reported : TorrentSummary) (holds : property moment.past)
    (knows : Knows known announce origins key upstream moment.past) :
    Safe (keeping trackers before syncer) 0
      (fun _ after => property after.past ∧
        Knows known announce origins key upstream after.past)
      (syncer.ratioLimitOf known hash reported) moment := by
  cases created : known.createdBySharerr with
  | true =>
    have plain := (syncer.ratioLimitOf_common known hash reported).mono
      fun _ common => common.plain
    refine (keepsPlain_keeping.safe_plain lasting plain holds).mono
      fun _ _ later => ⟨later, fun adopted => ?_⟩
    rw [adopted] at created
    cases created
  | false =>
    simp only [Syncer.ratioLimitOf, created]
    exact ⟨holds, knows⟩

theorem trackersKept_of_set
    {answer : Answer (.seeder key (.setTrackers hash
      (pass.announce.tiers ++ upstream.filterMap
        fun url => (syncer.seeder.urls.parse url).toOption)))}
    (announce : Heard earlier.past .announceSet (.ok pass.announce))
    (origins : Heard earlier.past .itemOrigins (.ok pass.origins))
    (row : ∀ other, RowRead earlier.past key other → other = known)
    (knows : Knows known pass.announce pass.origins key upstream earlier.past)
    (performed : Performed (keeping trackers before syncer) 0 earlier
      (.seeder key (.setTrackers hash (pass.announce.tiers ++
        upstream.filterMap
          fun url => (syncer.seeder.urls.parse url).toOption)))
      answer after) : TrackersKept trackers before after.past := by
  rw [performed.past]
  apply TrackersKept.append performed.holds
  intro other hash' urls known' same read adopted url listed
  cases same
  obtain rfl := row known' read
  rcases performed.meets _ _ _ _ _ _ rfl read adopted announce origins url
    listed with known | ours | ⟨kept, among, parsed⟩
  · exact .inr (.inl known)
  · exact .inr (.inr ours)
  · rw [(knows adopted).same] at among
    refine .inl (List.mem_append_right _ (List.mem_filterMap.mpr
      ⟨kept, among, ?_⟩))
    rw [parsed]
    rfl

/-- A request of the seeder that leaves the client's list and what is known of
it alone. -/
theorem safe_knowing {α : Type} {request : Seeder.Call}
    {next : Seeder.Answer request → Program α} {post : α → Moment → Prop}
    (lasting : Lasting property)
    (noSet : ∀ hash urls, request ≠ .setTrackers hash urls)
    (noExport : ∀ hash, request ≠ .export_ hash) (holds : property moment.past)
    (knows : Knows known announce origins key upstream moment.past)
    (rest : ∀ answer after, property after.past →
      Knows known announce origins key upstream after.past →
        Safe (keeping trackers before syncer) 0 post (next answer) after) :
    Safe (keeping trackers before syncer) 0 post
      (.call (.seeder key request) next) moment := by
  apply keeping_call (lasting.unshaken.and (unshaken_knows known announce
    origins key upstream)) _ ⟨holds, knows⟩
  · rintro earlier answer after ⟨held, knows⟩ performed
    apply rest answer after (lasting.seeder performed held)
    rw [performed.past]
    apply knows.append
    intro _ other hash same
    cases same
    exact noExport hash rfl
  · intro other hash urls same
    cases same
    exact noSet hash urls rfl

theorem safe_refreshAnnounce (lasting : Lasting property) (hash : String)
    (told : ∀ past, property past →
      Heard past .announceSet (.ok pass.announce) ∧
        Heard past .itemOrigins (.ok pass.origins) ∧
          ∀ other, RowRead past key other → other = known)
    (holds : property moment.past)
    (knows : Knows known pass.announce pass.origins key upstream moment.past) :
    Safe (keeping trackers before syncer) 0 (fun _ after => property after.past)
      (Syncer.forItem key
        (syncer.seeder.refreshAnnounce hash pass.announce upstream))
      moment := by
  apply safe_knowing lasting (by simp) (by simp) holds knows
  intro confirmed moment holds knows
  cases confirmed with
  | true => exact holds
  | false =>
    apply safe_knowing lasting (by simp) (by simp) holds knows
    intro read moment holds knows
    rw [Prog.lift_proceed]
    apply Safe.proceed
    · exact fun _ _ => holds
    · intro cached _
      cases cached with
      | none => exact holds
      | some data =>
        dsimp only
        rw [Prog.lift_proceed]
        apply Safe.proceed
        · exact fun _ _ => holds
        · intro outcome _
          cases outcome with
          | current torrent =>
            apply safe_knowing lasting (by simp) (by simp) holds knows
            exact fun _ _ holds _ => holds
          | updated previous torrent rewritten =>
            apply Safe.call (lasting.unshaken.and (unshaken_knows known
              pass.announce pass.origins key upstream)).stable
                ⟨holds, knows⟩
            rintro earlier set after ⟨held, knows⟩ performed
            obtain ⟨announce, origins, row⟩ := told _ held
            have later := lasting.seeder performed held
            refine ⟨trackersKept_of_set announce origins row knows
              performed, trivial, ?_⟩
            rw [Prog.lift_proceed]
            apply Safe.proceed
            · exact fun _ _ => later
            · intro _ _
              apply keeping_call lasting.unshaken (by simp) later
              intro earlier wrote after held performed
              have later := lasting.seeder performed held
              rw [Prog.lift_proceed]
              apply Safe.proceed
              · exact fun _ _ => later
              · intro _ _
                apply keeping_call lasting.unshaken (by simp) later
                intro earlier marked after held performed
                exact lasting.seeder performed held

theorem safe_confirmLive_keeping {reported : TorrentSummary}
    (lasting : Lasting property)
    (told : ∀ past, property past →
      Heard past .announceSet (.ok pass.announce) ∧
        Heard past .itemOrigins (.ok pass.origins) ∧
          ∀ other, RowRead past key other → other = known)
    (holds : property moment.past) :
    Safe (keeping trackers before syncer) 0 (fun _ after => property after.past)
      (syncer.confirmLive pass key known hash reported) moment := by
  apply (safe_upstreamOf lasting pass known hash holds).bind
  rintro upstream moment ⟨holds, knows⟩
  apply (safe_ratioLimitOf lasting known hash reported holds knows).bind
  rintro ratioLimit moment ⟨holds, knows⟩
  apply (safe_refreshAnnounce lasting hash told holds knows).bind
  intro refreshed moment holds
  apply keepsPlain_keeping.safe_plain lasting _ holds
  split <;> exact ⟨⟨id, id⟩, fun _ => trivial⟩

end Programs

theorem eq_of_rowRead {pass : PassContext} {readings : Syncer.Readings}
    {items : List Discovered} {known other : SharedItem}
    (told : Told pass readings items past)
    (row : knownItems readings.known key = some known)
    (read : RowRead past key other) : other = known := by
  obtain ⟨rows, heard, same, -⟩ := told.rows
  obtain ⟨again, heardAgain, found⟩ := read
  cases heard.unique heardAgain
  rw [← same, row] at found
  exact (Option.some.inj found).symm

theorem acts_keeping : Acts syncer (keeping trackers before syncer) where
  toKeepsPlain := keepsPlain_keeping
  confirms := by
    intro pass readings items item known hash reported moment told _ settled
    apply safe_confirmLive_keeping (lasting_told _ _ _) _ told
    intro past told
    exact ⟨told.announce, told.origins, fun _ read =>
      eq_of_rowRead told (settled_eq_some_iff.mp settled).1 read⟩
  seeds := by
    intro pass readings items item media paths entries moment told _ _
    have noSet : (Syncer.forItem item.key (syncer.seeder.seed paths
        pass.announce pass.torrents
        ((knownItems readings.known item.key).bind (·.infoHash)) media
        ⟨entries, pass.origin item.key⟩)).Only fun request =>
          ∃ inner : Seeder.Call, request = .seeder item.key inner ∧
            inner.Files (fun _ => True) False :=
      (syncer.seeder.seed_files (fun _ => trivial) ..).lift
        fun inner files => ⟨inner, rfl, files⟩
    apply Safe.of_only (lasting_told _ _ _).unshaken.stable _ noSet told
    rintro earlier request answer after ⟨inner, rfl, files⟩ held performed
    refine ⟨trackersKept_of_no_set ?_ performed, trivial,
      (lasting_told _ _ _).seeder performed held⟩
    rintro key hash urls same
    cases same
    exact files

end Proof

/-- In every run in which, wherever the client's list is replaced for a torrent
sharerr did not add, each tracker the client lists is ours or one the item is
remembered to have come with, no such list loses a tracker that is not
ours. -/
theorem trackers_kept (trackers : List Event → String → List String)
    (before : String → Prop) (syncer : Syncer) (work : List (Job × Nat))
    (visitors : Nat → Visitor) (world : World) (events : List Event)
    (final : Pool)
    (run : Process.Run perform (ListsRemembered trackers before syncer)
      (start syncer work visitors world) events final) :
    TrackersKept trackers before events :=
  acts_keeping.covered.of_run (by
    intro earlier thread key hash urls answer later row whole
    simp at whole) run

/-- The rows a pass last read, if the last reading went well. -/
def rowsRead (past : List Event) : Option (List SharedItem) :=
  past.foldl (fun rows event => match event with
    | ⟨0, .allItems, .ok read⟩ => some read
    | ⟨0, .allItems, .error _⟩ => none
    | _ => rows) none

theorem heard_of_rowsRead {past : List Event} {rows : List SharedItem}
    (read : rowsRead past = some rows) :
    Heard past .allItems (.ok rows) := by
  induction past using List.reverseRecOn with
  | nil => cases read
  | append_singleton past event ih =>
    rw [rowsRead, List.foldl_append] at read
    simp only [List.foldl_cons, List.foldl_nil] at read
    split at read
    · cases read
      exact .last ..
    · cases read
    · rename_i noRows noError
      apply (ih read).append
      intro syncer same
      obtain ⟨thread, request, answer⟩ := event
      dsimp only at syncer same
      subst syncer same
      cases answer with
      | error reason => exact noError reason rfl
      | ok rows => exact noRows rows rfl

/-- Whether the event replaces the list of a torrent sharerr did not add, and
leaves out one that is not ours. -/
def loses (trackers : List Event → String → List String)
    (past : List Event) : Event → Bool
  | ⟨_, .seeder key (.setTrackers hash urls), _⟩ =>
    match (rowsRead past).bind fun rows =>
        knownItems (rows.map folded) key with
    | some row => !row.createdBySharerr && (trackers past hash).any fun url =>
      url ∉ urls && url ∉ past.flatMap announced
    | none => false
  | _ => false

theorem not_kept_of_loses {trackers : List Event → String → List String}
    {events : List Event} (lost : somewhere (loses trackers) [] events = true) :
    ¬ TrackersKept trackers (fun _ => False) events := by
  intro kept
  obtain ⟨earlier, event, later, rfl, here⟩ := exists_of_somewhere lost
  unfold loses at here
  split at here
  · rename_i thread key hash urls answer
    split at here
    · rename_i row found
      obtain ⟨rows, read, known⟩ := Option.bind_eq_some_iff.mp found
      simp only [Bool.and_eq_true, Bool.not_eq_true', List.any_eq_true,
        decide_eq_true_eq] at here
      obtain ⟨adopted, url, listed, gone, foreign⟩ := here
      rcases kept earlier thread key hash urls answer later row rfl
        ⟨rows, heard_of_rowsRead read, known⟩ adopted url listed with
        still | known | ours
      · exact gone still
      · exact known
      · exact foreign (ours_iff.mp ours)
    · cases here
  · cases here

/-- The library after the endpoint moved: a torrent of the film is cached, and
announces to the old one. -/
def movedFilm : Environment :=
  { adoptedFilm [] with
    announce := .ok ⟨["http://abroad/announce"], by decide⟩
    cached := fun _ _ => .ok (some filmTorrent.encode) }

def twoPasses : List (Job × Nat) := [(.run false, 100), (.run false, 100)]

/-- The first pass, of 28 calls, adopts the operator's torrent; then the
endpoint moves. -/
def moving : Responder World Call Answer :=
  switched (adoptedFilm ("http://home/announce" :: operatorTrackers)) movedFilm
    28

/-- The operator adds a tracker after the adoption. -/
def operatorList (past : List Event) : List String :=
  "http://home/announce" :: operatorTrackers ++
    if past.length < 28 then [] else ["http://guild/announce"]

/-- The operator's second tracker goes when the endpoint moves. -/
theorem added_tracker_lost :
    ∃ events final, Process.Run perform .always
        (start smallSyncer twoPasses nobody (.fresh [operatorTorrent]))
          events final ∧
      ¬ TrackersKept (fun past _ => operatorList past) (fun _ => False)
        events := by
  have admitted : Admitted moving := admitted_switched _ _ _
  have run := run_of_alone admitted smallSyncer twoPasses nobody
    (.fresh [operatorTorrent])
  exact ⟨_, _, run, not_kept_of_loses (by decide +kernel)⟩

/-- The film adopted before the endpoint moved, its tracker remembered. -/
def filmAdopted : World :=
  (((World.fresh [operatorTorrent]).upsert
      ((film 1).intoSharedItem "Alphaville") 1690000000).updateItem
        (film 1).key (.setSeeding filmHash none false none)).setItemOrigin
          (film 1).key (some ⟨none, operatorTrackers⟩)

/-- The lists an event sets. -/
def sets : Event → List (List String)
  | ⟨_, .seeder _ (.setTrackers _ urls), _⟩ => [urls]
  | _ => []

/-- Whether what is remembered, going by any set announced and any origins
read so far, has these trackers wherever a list is set. -/
def remembersAll (trackers : List String) (moment : Moment) : Event → Bool
  | ⟨_, .seeder key (.setTrackers _ _), _⟩ =>
    moment.past.all fun told => moment.past.all fun read =>
      match told, read with
      | ⟨_, .announceSet, .ok announce⟩, ⟨_, .itemOrigins, .ok origins⟩ =>
        trackers.all (· ∈ remembered announce origins moment.past key)
      | _, _ => true
  | _ => true

theorem listsRemembered_of_check {trackers : List String} {home : String}
    {moment : Moment} {event : Event}
    (checked : remembersAll trackers moment event = true) :
    ListsRemembered (fun _ _ => home :: trackers) (· = home) smallSyncer
      moment event := by
  intro key hash urls row announce origins same _ _ told read url listed
  obtain ⟨thread, request, answer⟩ := event
  dsimp only at same
  subst same
  rcases List.mem_cons.mp listed with first | other
  · exact .inl first
  · simp only [remembersAll, List.all_eq_true] at checked
    have among := checked _ told.mem _ read.mem
    simp only [List.all_eq_true, decide_eq_true_eq] at among
    exact .inr (.inr ⟨url, among url other, rfl⟩)

/-- What is remembered is kept when the endpoint moves. -/
theorem remembered_tracker_kept :
    ∃ events final, Process.Run perform
        (ListsRemembered (fun _ _ => "http://home/announce" :: operatorTrackers)
          (· = "http://home/announce") smallSyncer)
        (start smallSyncer [(.run false, 100)] nobody filmAdopted) events
          final ∧
      TrackersKept (fun _ _ => "http://home/announce" :: operatorTrackers)
          (· = "http://home/announce") events ∧
        events.flatMap sets =
          ["http://abroad/announce" :: operatorTrackers] := by
  have replayed : (Process.replay perform (remembersAll operatorTrackers) []
      (start smallSyncer [(.run false, 100)] nobody filmAdopted)
      ((smallSyncer.jobs [(.run false, 100)]).told movedFilm.respond 0 0
        filmAdopted)).map (fun _ => ()) = some () := by decide +kernel
  obtain ⟨final, run, -⟩ := Process.Run.exists_of_replay
    (fun _ _ checked => listsRemembered_of_check checked) replayed
  exact ⟨_, final, run, trackers_kept _ _ _ _ _ _ _ _ run, by decide +kernel⟩

end Sync

end Sharerr
