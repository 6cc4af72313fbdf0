import Sharerr.Friends.Store
import Sharerr.Process.Pool

/-!
# Sightings of a friend

Every authenticated request of a friend touches its row: it reads when the
friend was last seen and makes one update, whose condition depends on what it
read.  What it read may be out of date by then.  The conditions see to it that
of any number of requests one finds the friend for the first time, and that
the row is not written again before the window has passed.
-/

namespace Sharerr

namespace Friends

open Process (Prog Run Pool)

def touchWindowSecs : Int := 300

inductive Touch where
  | first
  | refreshed
  | throttled
deriving DecidableEq, Repr

inductive TouchCall where
  | nowEpoch
  /-- `SELECT last_seen_at`. -/
  | lastSeenAt (id : Nat)
  /-- The `UPDATE` where `last_seen_at IS NULL`. -/
  | updateUnseen (now : Int) (id : Nat)
  /-- The `UPDATE` where `last_seen_at < ?3`. -/
  | updateStale (now : Int) (id : Nat) (limit : Int)
deriving DecidableEq, Repr

/-- An update answers whether it changed a row. -/
abbrev TouchAnswer : TouchCall → Type
  | .nowEpoch => Int
  | .lastSeenAt _ => Except StoreError (Option Int)
  | .updateUnseen _ _ => Except StoreError Bool
  | .updateStale _ _ _ => Except StoreError Bool

abbrev TouchProg := Prog TouchCall TouchAnswer (Except StoreError Touch)

def touched (touch : Touch) (changed : Bool) : TouchProg :=
  .done (.ok (if changed then touch else .throttled))

/-- `touch_peer` from its update on. -/
def updateSeen (id : Nat) (now : Int) : Option Int → TouchProg
  | none =>
    (Prog.request (TouchCall.updateUnseen now id)).attempt (touched .first)
  | some _ =>
    (Prog.request
      (TouchCall.updateStale now id (now - touchWindowSecs))).attempt
        (touched .refreshed)

/-- `touch_peer` from its read on. -/
def touchAt (id : Nat) (now : Int) : TouchProg :=
  (Prog.request (TouchCall.lastSeenAt id)).attempt fun seen =>
    if seen.any (now - touchWindowSecs ≤ ·) then .done (.ok .throttled)
    else updateSeen id now seen

def touchPeer (id : Nat) : TouchProg :=
  (Prog.request TouchCall.nowEpoch).bind (touchAt id)

namespace Store

/-- The column of a row, or `NULL` where there is no row. -/
def seenAt (store : Store) (id : Nat) : Option Int :=
  (store.peers.row? id).bind fun _ => (store.columns id).lastSeenAt

def updateSeenAt (store : Store) (id : Nat) (now : Int)
    (condition : Option Int → Bool) : Bool × Store :=
  if (store.peers.row? id).isSome && condition (store.columns id).lastSeenAt
  then (true, store.withColumns id
    { store.columns id with lastSeenAt := some now })
  else (false, store)

/-- What a statement answers and leaves; one that fails leaves the rows as
they were. -/
def performTouch {Thread : Type} :
    Process.Perform Thread Store TouchCall TouchAnswer :=
  fun _ store request answer =>
    match request, answer with
    | .nowEpoch, _ => some store
    | .lastSeenAt id, .ok seen =>
      if seen = store.seenAt id then some store else none
    | .lastSeenAt _, .error _ => some store
    | .updateUnseen now id, .ok changed =>
      let (changes, after) := store.updateSeenAt id now Option.isNone
      if changed = changes then some after else none
    | .updateUnseen _ _, .error _ => some store
    | .updateStale now id limit, .ok changed =>
      let (changes, after) := store.updateSeenAt id now
        fun seen => seen.any (· < limit)
      if changed = changes then some after else none
    | .updateStale _ _ _, .error _ => some store

end Store

/-- What an event wrote into the column. -/
def written {Thread : Type}
    (event : Process.Event Thread TouchCall TouchAnswer) :
    Option Int :=
  match event with
  | ⟨_, .updateUnseen now _, .ok true⟩ => some now
  | ⟨_, .updateStale now _ _, .ok true⟩ => some now
  | _ => none

/-- How far a call has come.  Who goes on to refresh the row, or has returned,
knows that the friend was seen. -/
inductive Stage (id : Nat) (seen : Prop) : TouchProg → Prop where
  | called : Stage id seen (touchPeer id)
  | reading (now : Int) : Stage id seen (touchAt id now)
  | claiming (now : Int) : Stage id seen (updateSeen id now none)
  | refreshing (now before : Int) (known : seen) :
      Stage id seen (updateSeen id now (some before))
  | failed (reason : StoreError) : Stage id seen (.done (.error reason))
  | returned (touch : Touch) (known : seen) :
      Stage id seen (.done (.ok touch))

theorem Stage.mono {id : Nat} {seen later : Prop} {program : TouchProg}
    (stage : Stage id seen program) (implies : seen → later) :
    Stage id later program := by
  cases stage with
  | called => exact .called
  | reading now => exact .reading now
  | claiming now => exact .claiming now
  | refreshing now before known => exact .refreshing now before (implies known)
  | failed reason => exact .failed reason
  | returned touch known => exact .returned touch (implies known)

def isFirst (program : TouchProg) : Prop :=
  program = .done (.ok .first)

/-- What a call did to the row, and where it stands after it. -/
inductive Went (id : Nat) (before after : Store) (wrote : Option Int)
    (program : TouchProg) : Prop where
  /-- Nothing was written. -/
  | idle (same : after = before) (nothing : wrote = none)
      (stage : Stage id (before.seenAt id ≠ none) program)
      (later : ¬ isFirst program)
  /-- The row had never been written. -/
  | claimed (now : Int) (unseen : before.seenAt id = none)
      (there : after.peers = before.peers) (wrote_ : wrote = some now)
      (seen : after.seenAt id = some now) (first : isFirst program)
  /-- The row was written before the window began. -/
  | refreshed (earlier now : Int) (stale : before.seenAt id = some earlier)
      (spaced : earlier + touchWindowSecs < now)
      (there : after.peers = before.peers) (wrote_ : wrote = some now)
      (seen : after.seenAt id = some now)
      (program_ : program = .done (.ok .refreshed))

section Steps

variable {Thread : Type} {thread : Thread} {id : Nat} {store after : Store}
variable {now limit : Int}

theorem seenAt_of_row (there : store.peers.row? id ≠ none) :
    store.seenAt id = (store.columns id).lastSeenAt := by
  obtain ⟨row, found⟩ := Option.ne_none_iff_exists'.mp there
  rw [Store.seenAt, found, Option.bind_some]

theorem updateSeenAt_eq (there : store.peers.row? id ≠ none) (now : Int)
    (condition : Option Int → Bool) :
    (condition (store.seenAt id) = true ∧
        ∃ after, store.updateSeenAt id now condition = (true, after) ∧
          after.peers = store.peers ∧ after.seenAt id = some now) ∨
      condition (store.seenAt id) = false ∧
        store.updateSeenAt id now condition = (false, store) := by
  have isThere : (store.peers.row? id).isSome = true :=
    Option.isSome_iff_ne_none.mpr there
  rw [seenAt_of_row there, Store.updateSeenAt, isThere, Bool.true_and]
  cases met : condition (store.columns id).lastSeenAt with
  | false => exact .inr ⟨rfl, rfl⟩
  | true =>
    refine .inl ⟨rfl, _, rfl, rfl, ?_⟩
    rw [seenAt_of_row (by exact there)]
    simp [Store.withColumns]

theorem went_of_step {program : TouchProg} {request : TouchCall}
    {next : TouchAnswer request → TouchProg} {answer : TouchAnswer request}
    (stage : Stage id (store.seenAt id ≠ none) program)
    (there : store.peers.row? id ≠ none)
    (waiting : program = .call request next)
    (performed : Store.performTouch thread store request answer = some after) :
    Went id store after (written ⟨thread, request, answer⟩) (next answer) := by
  cases stage with
  | called =>
    change Prog.call _ _ = _ at waiting
    cases waiting
    cases performed
    exact .idle rfl rfl (.reading answer) nofun
  | reading now =>
    change Prog.call _ _ = _ at waiting
    cases waiting
    cases answer with
    | error reason =>
      cases performed
      exact .idle rfl rfl (.failed reason) nofun
    | ok seen =>
      obtain ⟨rfl, rfl⟩ : seen = store.seenAt id ∧ store = after := by
        simpa [Store.performTouch] using performed
      change Went _ _ _ _ (if (store.seenAt id).any
        (now - touchWindowSecs ≤ ·) then _ else _)
      split
      · rename_i recent
        refine .idle rfl rfl (.returned _ ?_) nofun
        intro unseen
        simp [unseen] at recent
      · cases last : store.seenAt id with
        | none => exact .idle rfl rfl (.claiming now) nofun
        | some before =>
          have known : store.seenAt id ≠ none := by simp [last]
          exact .idle rfl rfl (.refreshing now before known) nofun
  | claiming now =>
    change Prog.call _ _ = _ at waiting
    cases waiting
    cases answer with
    | error reason =>
      cases performed
      exact .idle rfl rfl (.failed reason) nofun
    | ok changed =>
      rcases updateSeenAt_eq there now Option.isNone with
        ⟨unseen, left, updated, kept, seen⟩ | ⟨seen, updated⟩
      · obtain ⟨rfl, rfl⟩ : changed = true ∧ left = after := by
          simpa [Store.performTouch, updated] using performed
        exact .claimed now (Option.isNone_iff_eq_none.mp unseen) kept rfl
          seen rfl
      · obtain ⟨rfl, rfl⟩ : changed = false ∧ store = after := by
          simpa [Store.performTouch, updated] using performed
        refine .idle rfl rfl (.returned _ ?_) nofun
        intro unseen
        simp [unseen] at seen
  | refreshing now before known =>
    change Prog.call _ _ = _ at waiting
    cases waiting
    cases answer with
    | error reason =>
      cases performed
      exact .idle rfl rfl (.failed reason) nofun
    | ok changed =>
      rcases updateSeenAt_eq there now
          (fun seen => seen.any (· < now - touchWindowSecs)) with
        ⟨stale, left, updated, kept, seen⟩ | ⟨recent, updated⟩
      · obtain ⟨rfl, rfl⟩ : changed = true ∧ left = after := by
          simpa [Store.performTouch, updated] using performed
        obtain ⟨earlier, last⟩ := Option.ne_none_iff_exists'.mp known
        have spaced : earlier < now - touchWindowSecs := by
          simpa [last] using stale
        exact .refreshed earlier now last (by omega) kept rfl seen rfl
      · obtain ⟨rfl, rfl⟩ : changed = false ∧ store = after := by
          simpa [Store.performTouch, updated] using performed
        exact .idle rfl rfl (.returned _ known) nofun
  | failed reason => cases waiting
  | returned touch known => cases waiting

end Steps

/-- The writes of a run. -/
def writes {Thread : Type}
    (trace : List (Process.Event Thread TouchCall TouchAnswer)) : List Int :=
  trace.filterMap written

/-- Any number of calls at once. -/
def touching (Thread : Type) (store : Store) (id : Nat) :
    Pool Thread Store TouchCall TouchAnswer (Except StoreError Touch) :=
  ⟨store, fun _ => touchPeer id⟩

/-- Each value is more than the window above the ones before it. -/
def Spaced (values : List Int) : Prop :=
  values.Pairwise fun earlier later => earlier + touchWindowSecs < later

theorem le_of_last {values : List Int} {value last : Int}
    (spaced : Spaced values) (final : values.getLast? = some last)
    (member : value ∈ values) : value ≤ last := by
  obtain ⟨before, rfl⟩ := List.getLast?_eq_some_iff.mp final
  rcases List.mem_append.mp member with among | same
  · have rises := (List.pairwise_append.mp spaced).2.2 value among last
      (List.mem_singleton.mpr rfl)
    rw [touchWindowSecs] at rises
    omega
  · rw [List.mem_singleton.mp same]

section Runs

variable {Thread : Type} [DecidableEq Thread] {id : Nat} {store : Store}
variable {pool : Pool Thread Store TouchCall TouchAnswer
  (Except StoreError Touch)}
variable {trace : List (Process.Event Thread TouchCall TouchAnswer)}

/-- What holds between any two steps of any number of calls. -/
structure Noticed (id : Nat)
    (pool : Pool Thread Store TouchCall TouchAnswer (Except StoreError Touch))
    (trace : List (Process.Event Thread TouchCall TouchAnswer)) : Prop where
  there : pool.world.peers.row? id ≠ none
  stages : ∀ thread,
    Stage id (pool.world.seenAt id ≠ none) (pool.threads thread)
  last : pool.world.seenAt id = (writes trace).getLast?
  spaced : Spaced (writes trace)
  some_ : pool.world.seenAt id ≠ none →
    ∃ thread, isFirst (pool.threads thread)
  one : ∀ thread other, isFirst (pool.threads thread) →
    isFirst (pool.threads other) → thread = other

variable {thread : Thread} {after : Store}

omit [DecidableEq Thread] in
theorem Noticed.seen_of_first (noticed : Noticed id pool trace)
    (first : isFirst (pool.threads thread)) :
    pool.world.seenAt id ≠ none := by
  have stage := noticed.stages thread
  rw [isFirst] at first
  rw [first] at stage
  cases stage with
  | returned _ known => exact known

omit [DecidableEq Thread] in
theorem writes_append {event : Process.Event Thread TouchCall TouchAnswer} :
    writes (trace ++ [event]) = writes trace ++ (written event).toList := by
  rw [writes, List.filterMap_append, List.filterMap_cons]
  cases written event <;> rfl

theorem stages_put {program : TouchProg} {seen later : Prop}
    (stages : ∀ other, Stage id seen (pool.threads other))
    (implies : seen → later) (stage : Stage id later program) (other : Thread) :
    Stage id later
      ((pool.put thread after program).threads other) := by
  by_cases own : other = thread
  · rw [own, Pool.put_same]
    exact stage
  · rw [Pool.put_other pool own]
    exact (stages other).mono implies

/-- A step that nobody's first contact hangs on. -/
theorem firsts_put {other : Thread} {program : TouchProg}
    (before : ¬ isFirst (pool.threads thread)) (later : ¬ isFirst program) :
    isFirst ((pool.put thread after program).threads other) ↔
      isFirst (pool.threads other) := by
  by_cases own : other = thread
  · rw [own, Pool.put_same]
    exact iff_of_false later before
  · rw [Pool.put_other pool own]

theorem Noticed.step {request : TouchCall}
    {next : TouchAnswer request → TouchProg} {answer : TouchAnswer request}
    (noticed : Noticed id pool trace)
    (waiting : pool.threads thread = .call request next)
    (performed : Store.performTouch thread pool.world request answer =
      some after) :
    Noticed id (pool.put thread after (next answer))
      (trace ++ [⟨thread, request, answer⟩]) := by
  have notFirst : ¬ isFirst (pool.threads thread) := by
    rw [isFirst, waiting]
    nofun
  rcases went_of_step (noticed.stages thread) noticed.there waiting
    performed with ⟨rfl, nothing, stage, later⟩ |
      ⟨now, unseen, kept, wrote, seen, first⟩ |
      ⟨earlier, now, stale, spaced, kept, wrote, seen, program⟩
  · have same : writes (trace ++ [⟨thread, request, answer⟩]) =
        writes trace := by
      rw [writes_append, nothing, Option.toList_none, List.append_nil]
    refine ⟨noticed.there, stages_put noticed.stages (fun known => known) stage,
      ?_, ?_, ?_, ?_⟩
    · rw [same]
      exact noticed.last
    · rw [same]
      exact noticed.spaced
    · simp only [firsts_put notFirst later]
      exact noticed.some_
    · simp only [firsts_put notFirst later]
      exact noticed.one
  · have nobody : ∀ other, ¬ isFirst (pool.threads other) :=
      fun other first => noticed.seen_of_first first unseen
    have known : after.seenAt id ≠ none := by simp [seen]
    have none_ : writes trace = [] := by
      rw [← List.getLast?_eq_none_iff, ← noticed.last, unseen]
    have once : writes (trace ++ [⟨thread, request, answer⟩]) = [now] := by
      rw [writes_append, none_, wrote]
      rfl
    have own : ∀ other,
        isFirst ((pool.put thread after (next answer)).threads other) →
          other = thread := by
      intro other first
      by_contra different
      rw [Pool.put_other pool different] at first
      exact nobody other first
    refine ⟨by rw [Pool.put_world, kept]; exact noticed.there, ?_, ?_, ?_, ?_,
      ?_⟩
    · refine stages_put noticed.stages (fun _ => known) ?_
      rw [first]
      exact .returned .first known
    · rw [once]
      exact seen
    · rw [once]
      exact List.pairwise_singleton _ _
    · intro _
      exact ⟨thread, by rw [Pool.put_same]; exact first⟩
    · intro one other first second
      rw [own one first, own other second]
  · have known : after.seenAt id ≠ none := by simp [seen]
    have later : ¬ isFirst (next answer) := by
      rw [program]
      nofun
    have more : writes (trace ++ [⟨thread, request, answer⟩]) =
        writes trace ++ [now] := by
      rw [writes_append, wrote]
      rfl
    refine ⟨by rw [Pool.put_world, kept]; exact noticed.there, ?_, ?_, ?_, ?_,
      ?_⟩
    · refine stages_put noticed.stages (fun _ => known) ?_
      rw [program]
      exact .returned .refreshed known
    · rw [more, List.getLast?_concat]
      exact seen
    · rw [more]
      refine List.pairwise_append.mpr ⟨noticed.spaced,
        List.pairwise_singleton _ _, ?_⟩
      intro value among last final
      rw [List.mem_singleton.mp final]
      have bounded := le_of_last noticed.spaced (noticed.last.symm.trans stale)
        among
      omega
    · simp only [firsts_put notFirst later]
      intro _
      exact noticed.some_ (by simp [stale])
    · simp only [firsts_put notFirst later]
      exact noticed.one

theorem noticed_of_run (there : store.peers.row? id ≠ none)
    (unseen : (store.columns id).lastSeenAt = none)
    (run : Run Store.performTouch .always (touching Thread store id) trace
      pool) : Noticed id pool trace := by
  induction run with
  | start =>
    have never : store.seenAt id = none := by
      rw [seenAt_of_row there, unseen]
    refine ⟨there, fun _ => .called, never, List.Pairwise.nil, ?_, nofun⟩
    exact fun seen => absurd never seen
  | step run waiting _ performed ih => exact ih.step waiting performed

/-- Whatever the interleaving of any number of touches of a friend who was
never seen: as soon as one of them has returned, exactly one returned that it
was the first; the column never decreases, and each value written is more than
the window above all that were written before. -/
theorem noticed_once (Thread : Type) [DecidableEq Thread] (id : Nat)
    (store : Store) (there : store.peers.row? id ≠ none)
    (unseen : (store.columns id).lastSeenAt = none)
    (trace : List (Process.Event Thread TouchCall TouchAnswer))
    (pool : Pool Thread Store TouchCall TouchAnswer (Except StoreError Touch))
    (run : Run Store.performTouch .always (touching Thread store id) trace
      pool) :
    (∀ thread touch, pool.threads thread = .done (.ok touch) →
        ∃! first, pool.threads first = .done (.ok .first)) ∧
      (∀ earlier later middle, trace = earlier ++ later →
        Run Store.performTouch .always (touching Thread store id) earlier
            middle →
          ∀ before, middle.world.seenAt id = some before →
            ∃ now, pool.world.seenAt id = some now ∧ before ≤ now) ∧
        (writes trace).Pairwise fun earlier later =>
          earlier + touchWindowSecs < later := by
  have noticed := noticed_of_run there unseen run
  refine ⟨?_, ?_, noticed.spaced⟩
  · intro thread touch returned
    have stage := noticed.stages thread
    rw [returned] at stage
    cases stage with
    | returned _ known =>
      obtain ⟨first, isFirst_⟩ := noticed.some_ known
      exact ⟨first, isFirst_, fun other same =>
        noticed.one other first same isFirst_⟩
  · rintro earlier later middle rfl run before seen
    have then_ := (noticed_of_run there unseen run).last
    rw [seen] at then_
    have member : before ∈ writes (earlier ++ later) := by
      rw [writes, List.filterMap_append]
      exact List.mem_append_left _ (List.mem_of_getLast? then_.symm)
    have last := noticed.last
    cases now : pool.world.seenAt id with
    | none =>
      rw [now, eq_comm, List.getLast?_eq_none_iff] at last
      rw [last] at member
      cases member
    | some now_ =>
      rw [now] at last
      exact ⟨now_, rfl, le_of_last noticed.spaced last.symm member⟩

end Runs

/-- A friend who was never seen. -/
def newFriend : Store :=
  (Store.empty.createPeer "sam" "0123" .all 1700000000).2

/-- Two requests that both read before either writes, the later one first, and
a third much later. -/
def racing : List (Process.Event (Fin 3) TouchCall TouchAnswer) :=
  [⟨0, .nowEpoch, (1700000100 : Int)⟩, ⟨1, .nowEpoch, (1700000101 : Int)⟩,
    ⟨0, .lastSeenAt 1, .ok none⟩, ⟨1, .lastSeenAt 1, .ok none⟩,
    ⟨1, .updateUnseen 1700000101 1, .ok true⟩,
    ⟨0, .updateUnseen 1700000100 1, .ok false⟩,
    ⟨2, .nowEpoch, (1700000500 : Int)⟩,
    ⟨2, .lastSeenAt 1, .ok (some 1700000101)⟩,
    ⟨2, .updateStale 1700000500 1 1700000200, .ok true⟩]

theorem racing_noticed_once :
    ∃ pool, Run Store.performTouch .always (touching (Fin 3) newFriend 1)
        racing pool ∧
      pool.world.seenAt 1 = some 1700000500 ∧
      (∃! first, pool.threads first = .done (.ok .first)) ∧
      (writes racing).Pairwise fun earlier later =>
        earlier + touchWindowSecs < later := by
  have replayed : (Process.replay Store.performTouch (fun _ _ => true) []
      (touching (Fin 3) newFriend 1) racing).map
      (fun pool => (pool.world.seenAt 1,
        (pool.threads 1).result?.bind (·.toOption))) =
        some (some 1700000500, some .first) := by
    decide +kernel
  obtain ⟨pool, run, shown⟩ : ∃ pool,
      Run Store.performTouch .always (touching (Fin 3) newFriend 1) racing
        pool ∧
      (pool.world.seenAt 1, (pool.threads 1).result?.bind (·.toOption)) =
        (some 1700000500, some .first) :=
    Process.Run.exists_of_replay (fun _ _ _ => trivial) replayed
  obtain ⟨seen, first⟩ := Prod.mk.inj shown
  obtain ⟨result, finished, ok⟩ := Option.bind_eq_some_iff.mp first
  have returned : pool.threads 1 = .done (.ok .first) := by
    rw [Prog.eq_done_of_result? finished]
    cases result with
    | error reason => cases ok
    | ok touch =>
      cases ok
      rfl
  have noticed := noticed_once (Fin 3) 1 newFriend (by decide +kernel)
    (by decide +kernel) racing pool run
  exact ⟨pool, run, seen, noticed.1 1 .first returned, noticed.2.2⟩

end Friends

end Sharerr
