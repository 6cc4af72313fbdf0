import Sharerr.Process.Safety
import Sharerr.Settings.Slots

/-!
# The grace period of a rotated token

A rotation reads the current token from the handle it opened, puts it into the
previous slot and its own token into the current one.  Only each put is
locked.  As long as no other rotation puts a token between the opening and the
last put, the previous slot ends with the token that the current one replaced.
-/

namespace Sharerr

namespace Settings

open Process (Prog Performed Safe)
open Tracker (trackerToken trackerTokenPrevious)

section Events

variable {Rest : Type}

/-- The value that a successful put leaves under a key. -/
def stores? (key : String) : Event Rest → Option String
  | ⟨_, .vault (.mutate (.put other value)), (_, .ok _)⟩ =>
    if other = key then some value else none
  | _ => none

/-- The token in the current slot, and the one it replaced there. -/
structure Succession where
  current : Option String
  replaced : Option String
deriving DecidableEq, Repr

/-- A token typed again replaces nothing. -/
def Succession.next (seen : Succession) (event : Event Rest) : Succession :=
  match stores? trackerToken event with
  | none => seen
  | some token =>
    if seen.current = some token then seen
    else ⟨some token, seen.current⟩

def succession (start : Option String) (past : List (Event Rest)) :
    Succession :=
  past.foldl Succession.next ⟨start, none⟩

/-- The thread has opened its handle. -/
def HasOpened (thread : Nat) (past : List (Event Rest)) : Prop :=
  ∃ earlier host answer later,
    past = earlier ++ ⟨thread, .vault .open, (host, .ok answer)⟩ :: later

/-- Since the thread opened its handle another one put a token. -/
def Raced (thread : Nat) (past : List (Event Rest)) : Prop :=
  ∃ earlier host answer later,
    past = earlier ++ ⟨thread, .vault .open, (host, .ok answer)⟩ :: later ∧
      ∃ event ∈ later, event.thread ≠ thread ∧
        (stores? trackerToken event).isSome

/-- Whether the thread has put the previous token and not yet its own. -/
def halfwayNext (thread : Nat) (halfway : Bool) (event : Event Rest) : Bool :=
  if event.thread ≠ thread then halfway
  else if (stores? trackerToken event).isSome then false
  else (stores? trackerTokenPrevious event).isSome || halfway

def halfway (thread : Nat) (past : List (Event Rest)) : Bool :=
  past.foldl (halfwayNext thread) false

theorem succession_append (start : Option String) (past : List (Event Rest))
    (event : Event Rest) :
    succession start (past ++ [event]) = (succession start past).next event :=
  List.foldl_append

theorem halfway_append (thread : Nat) (past : List (Event Rest))
    (event : Event Rest) :
    halfway thread (past ++ [event]) =
      halfwayNext thread (halfway thread past) event :=
  List.foldl_append

variable {past : List (Event Rest)} {thread : Nat} {event : Event Rest}

theorem HasOpened.append (opened : HasOpened thread past) (event : Event Rest) :
    HasOpened thread (past ++ [event]) := by
  obtain ⟨earlier, host, answer, later, rfl⟩ := opened
  exact ⟨earlier, host, answer, later ++ [event], by simp⟩

theorem Raced.append (raced : Raced thread past) (event : Event Rest) :
    Raced thread (past ++ [event]) := by
  obtain ⟨earlier, host, answer, later, rfl, other, member, theirs⟩ := raced
  refine ⟨earlier, host, answer, later ++ [event], by simp, other, ?_, theirs⟩
  exact List.mem_append_left _ member

theorem HasOpened.raced (opened : HasOpened thread past)
    (different : event.thread ≠ thread)
    (stored : (stores? trackerToken event).isSome) :
    Raced thread (past ++ [event]) := by
  obtain ⟨earlier, host, answer, later, rfl⟩ := opened
  refine ⟨earlier, host, answer, later ++ [event], by simp, event, ?_,
    different, stored⟩
  exact List.mem_append_right _ List.mem_cons_self

/-- A call that is no put and no removal. -/
def Call.IsLooking : Call Rest → Prop
  | .vault (.mutate _) => False
  | _ => True

theorem stores?_of_looking {request : Call Rest} (looking : request.IsLooking)
    (key : String) (thread : Nat) (answer : Answer request) :
    stores? key ⟨thread, request, answer⟩ = none := by
  cases request with
  | vault wanted =>
    cases wanted with
    | mutate mutation => exact looking.elim
    | _ => rfl
  | _ => rfl

theorem Succession.next_of_none {seen : Succession}
    (nothing : stores? trackerToken event = none) : seen.next event = seen := by
  simp [Succession.next, nothing]

theorem halfway_of_unstored (nothing : ∀ key, stores? key event = none)
    (other : Nat) :
    halfway other (past ++ [event]) = halfway other past := by
  rw [halfway_append]
  simp [halfwayNext, nothing]

end Events

/-- No rotation puts a token after another one did since it opened its
handle. -/
def Unraced {Cipher Rest : Type} :
    Process.Condition Nat (World Cipher Rest) (Call Rest) Answer :=
  fun moment event =>
    (stores? trackerToken event).isSome ∨
        (stores? trackerTokenPrevious event).isSome →
      ¬ Raced event.thread moment.past

section Protocol

variable {Cipher Rest : Type} [DecidableEq Rest]
variable (sealing : Sealing Cipher) (master : String) (start : Option String)

/-- The previous slot holds what the current token replaced, or somebody is
about to replace the current token. -/
def Kept (moment : Moment Cipher Rest) : Prop :=
  slot sealing master moment.world trackerToken =
      (succession start moment.past).current ∧
    ((∀ old, (succession start moment.past).replaced = some old →
        slot sealing master moment.world trackerTokenPrevious = some old) ∨
      ∃ thread, halfway thread moment.past = true)

/-- What a call puts into the previous slot is the current token. -/
def Yields (before after : Moment Cipher Rest) : Prop :=
  slot sealing master after.world trackerTokenPrevious =
      slot sealing master before.world trackerTokenPrevious ∨
    slot sealing master after.world trackerTokenPrevious =
      slot sealing master before.world trackerToken

def rotating :
    Process.Protocol Nat (World Cipher Rest) (Call Rest) Answer where
  perform := perform sealing master
  condition := Unraced
  invariant := Kept sealing master start
  guarantee _ := Yields sealing master

/-- The thread has not put a previous token that it has to follow up. -/
def Even (thread : Nat) (moment : Moment Cipher Rest) : Prop :=
  halfway thread moment.past = false

/-- The handle was opened on the current token, unless it is too late. -/
def Reads (thread : Nat) (handle : Vault.Handle Cipher)
    (moment : Moment Cipher Rest) : Prop :=
  Opened sealing master moment.world thread handle ∧
    HasOpened thread moment.past ∧
    (Raced thread moment.past ∨
      slot sealing master moment.world trackerToken =
        (handle.get sealing.toCrypto trackerToken).toOption.join)

/-- The token may be put, unless it is too late: it replaces none, or the one
in the previous slot. -/
def Ready (thread : Nat) (new : String) (moment : Moment Cipher Rest) :
    Prop :=
  (∃ handle, Opened sealing master moment.world thread handle) ∧
    HasOpened thread moment.past ∧
    (Raced thread moment.past ∨
      (slot sealing master moment.world trackerToken = none ∨
          slot sealing master moment.world trackerToken = some new) ∧
        Even thread moment ∨
      slot sealing master moment.world trackerToken ≠ some new ∧
        slot sealing master moment.world trackerTokenPrevious =
          slot sealing master moment.world trackerToken)

variable {sealing master start} {thread : Nat}
  {before after : Moment Cipher Rest} {request : Call Rest}
  {answer : Answer request}

theorem perform_of_rotating
    (performed : Performed (rotating sealing master start) thread before
      request answer after) :
    perform sealing master thread before.world request answer =
      some after.world :=
  performed.performed

theorem current_of_unstored (holds : Kept sealing master start after)
    (performed : Performed (rotating sealing master start) thread before
      request answer after)
    (unstored : stores? trackerToken ⟨thread, request, answer⟩ = none) :
    slot sealing master after.world trackerToken =
      slot sealing master before.world trackerToken := by
  rw [holds.1, performed.past, succession_append,
    Succession.next_of_none unstored]
  exact performed.holds.1.symm

/-- Another thread puts a token too early, or leaves the current one and puts
no other one into the previous slot. -/
theorem raced_or_current (opened : HasOpened thread before.past)
    (others : (rotating sealing master start).Others thread before after) :
    Raced thread after.past ∨
      slot sealing master after.world trackerToken =
        slot sealing master before.world trackerToken := by
  obtain ⟨other, different, -, holds, request, answer, performed⟩ := others
  cases stored : stores? trackerToken ⟨other, request, answer⟩ with
  | none => exact .inr (current_of_unstored holds performed stored)
  | some token =>
    left
    rw [performed.past]
    exact opened.raced different (by simp [stored])

variable {handle : Vault.Handle Cipher} {moment : Moment Cipher Rest}

/-- What the other threads leave of a handle and of the events. -/
theorem opened_of_others
    (others : (rotating sealing master start).Others thread before after)
    (opened : Opened sealing master before.world thread handle) :
    Opened sealing master after.world thread handle := by
  obtain ⟨other, different, -, -, request, answer, performed⟩ := others
  exact opened.of_other (Ne.symm different) performed.performed

theorem past_of_others
    (others : (rotating sealing master start).Others thread before after) :
    (∃ event, event.thread ≠ thread ∧ after.past = before.past ++ [event]) ∧
      Yields sealing master before after := by
  obtain ⟨other, different, yields, -, request, answer, performed⟩ := others
  exact ⟨⟨⟨other, request, answer⟩, different, performed.past⟩, yields⟩

theorem Even.stable : (rotating sealing master start).Stable thread
    (Even thread : Moment Cipher Rest → Prop) := by
  intro before after even others
  obtain ⟨⟨event, different, past⟩, -⟩ := past_of_others others
  rw [Even, past, halfway_append, halfwayNext, if_pos different]
  exact even

theorem Reads.stable :
    (rotating sealing master start).Stable thread
      (Reads sealing master thread handle : Moment Cipher Rest → Prop) := by
  rintro before after ⟨opened, since, reads⟩ others
  obtain ⟨⟨event, -, past⟩, -⟩ := past_of_others others
  refine ⟨opened_of_others others opened, past ▸ since.append event, ?_⟩
  rcases reads with raced | current
  · exact .inl (past ▸ raced.append event)
  · rcases raced_or_current since others with raced | same
    · exact .inl raced
    · exact .inr (same.trans current)

theorem Ready.stable {new : String} :
    (rotating sealing master start).Stable thread
      (Ready sealing master thread new : Moment Cipher Rest → Prop) := by
  rintro before after ⟨⟨handle, opened⟩, since, ready⟩ others
  obtain ⟨⟨event, -, past⟩, yields⟩ := past_of_others others
  refine ⟨⟨handle, opened_of_others others opened⟩,
    past ▸ since.append event, ?_⟩
  rcases ready with raced | ready
  · exact .inl (past ▸ raced.append event)
  · rcases raced_or_current since others with raced | same
    · exact .inl raced
    · right
      rw [same]
      rcases ready with ⟨current, even⟩ | ⟨other, previous⟩
      · exact .inl ⟨current, Even.stable before after even others⟩
      · refine .inr ⟨other, ?_⟩
        rcases yields with kept | put
        · exact kept.trans previous
        · exact put

theorem file_of_looking (looking : request.IsLooking)
    {world next : World Cipher Rest}
    (performed : perform sealing master thread world request answer =
      some next) :
    next.vault.file = world.vault.file := by
  by_cases plain : request.IsPlain
  · rw [vault_of_plain plain performed]
  · cases request with
    | vault wanted =>
      obtain ⟨host, answer⟩ := answer
      cases wanted with
      | «open» => exact file_of_open performed
      | get key => rw [(vault_of_get performed).1]
      | mutate mutation => exact looking.elim
    | _ => exact absurd trivial plain

theorem kept_of_unstored
    (performed : Performed (rotating sealing master start) thread before
      request answer after)
    (nothing : ∀ key, stores? key ⟨thread, request, answer⟩ = none)
    (files : after.world.vault.file = before.world.vault.file) :
    Kept sealing master start after ∧ Yields sealing master before after := by
  obtain ⟨current, held⟩ := performed.holds
  refine ⟨⟨?_, ?_⟩, .inl (slot_congr files)⟩
  · rw [slot_congr files, performed.past, succession_append,
      Succession.next_of_none (nothing _), current]
  · rw [performed.past, succession_append,
      Succession.next_of_none (nothing _), slot_congr files]
    rcases held with previous | ⟨other, half⟩
    · exact .inl previous
    · exact .inr ⟨other, (halfway_of_unstored nothing other).trans half⟩

theorem kept_of_looking (looking : request.IsLooking)
    (performed : Performed (rotating sealing master start) thread before
      request answer after) :
    Kept sealing master start after ∧ Yields sealing master before after :=
  kept_of_unstored performed
    (fun key => stores?_of_looking looking key thread answer)
    (file_of_looking looking performed.performed)

theorem even_of_unstored
    (performed : Performed (rotating sealing master start) thread before
      request answer after)
    (nothing : ∀ key, stores? key ⟨thread, request, answer⟩ = none)
    (even : Even thread before) : Even thread after := by
  rw [Even, performed.past, halfway_of_unstored nothing]
  exact even

theorem safe_of_looking {α : Type} {program : Program Rest α}
    (only : program.Only Call.IsLooking) (even : Even thread moment) :
    Safe (rotating sealing master start) thread
      (fun _ after => Even thread after) program moment := by
  refine Safe.of_only Even.stable ?_ only even
  intro before request answer after looking held performed
  obtain ⟨kept, yields⟩ := kept_of_looking looking performed
  exact ⟨kept, yields, even_of_unstored performed
    (fun key => stores?_of_looking looking key thread answer) held⟩

section Puts

variable (lawful : sealing.Lawful) {handle : Vault.Handle Cipher}
  {host : Vault.Host} {given : Vault.Answer} {new current : String}

include lawful

/-- The token that is about to be replaced goes into the previous slot. -/
theorem ready_of_preserved (reads : Reads sealing master thread handle before)
    (held : (handle.get sealing.toCrypto trackerToken).toOption.join =
      some current)
    (different : current ≠ new)
    (performed : Performed (rotating sealing master start) thread before
      (.vault (.mutate (.put trackerTokenPrevious current))) (host, .ok given)
      after) :
    Kept sealing master start after ∧ Yields sealing master before after ∧
      Ready sealing master thread new after := by
  obtain ⟨opened, since, raced | same⟩ := reads
  · exact absurd raced (performed.meets (.inr (by simp [stores?])))
  · obtain ⟨⟨later, opens⟩, previous, others⟩ :=
      slot_of_put lawful opened performed.performed
    have kept := others trackerToken (Ne.symm previous_ne_current)
    rw [held] at same
    have nothing : stores? trackerToken (⟨thread,
        .vault (.mutate (.put trackerTokenPrevious current)),
        (host, .ok given)⟩ : Event Rest) = none := by
      simp [stores?, previous_ne_current]
    refine ⟨⟨?_, .inr ⟨thread, ?_⟩⟩, .inr (previous.trans same.symm),
      ⟨later, opens⟩, ?_, .inr (.inr ⟨?_, ?_⟩)⟩
    · rw [kept, performed.past, succession_append,
        Succession.next_of_none nothing]
      exact performed.holds.1
    · rw [performed.past, halfway_append, halfwayNext]
      simp [stores?, previous_ne_current]
    · rw [performed.past]
      exact since.append _
    · rw [kept, same]
      simpa using different
    · rw [kept, same, previous]

theorem even_of_put (ready : Ready sealing master thread new before)
    (performed : Performed (rotating sealing master start) thread before
      (.vault (.mutate (.put trackerToken new))) (host, .ok given) after) :
    Kept sealing master start after ∧ Yields sealing master before after ∧
      Even thread after := by
  obtain ⟨⟨handle, opened⟩, -, ready⟩ := ready
  obtain ⟨-, current, others⟩ :=
    slot_of_put lawful opened performed.performed
  have previous := others trackerTokenPrevious previous_ne_current
  obtain ⟨holds, held⟩ := performed.holds
  have stored : stores? trackerToken (⟨thread,
      .vault (.mutate (.put trackerToken new)), (host, .ok given)⟩ :
        Event Rest) = some new := by
    simp [stores?]
  have even : Even thread after := by
    rw [Even, performed.past, halfway_append, halfwayNext]
    simp [stored]
  refine ⟨?_, .inl previous, even⟩
  rw [Kept, performed.past, succession_append, Succession.next, stored,
    current, previous]
  rcases ready with raced | ⟨unreplaced, was⟩ | ⟨other, preserved⟩
  · exact absurd raced (performed.meets (.inl (by simp [stored])))
  · rw [holds] at unreplaced
    rcases unreplaced with none | same
    · simp [none]
    · simp only [same, if_true]
      refine ⟨trivial, ?_⟩
      rcases held with previous | ⟨half, going⟩
      · exact .inl previous
      · refine .inr ⟨half, ?_⟩
        have different : thread ≠ half := by
          rintro rfl
          rw [Even] at was
          rw [was] at going
          cases going
        rw [halfway_append, halfwayNext, if_pos different]
        exact going
  · rw [holds] at other preserved
    simp only [if_neg other, preserved]
    exact ⟨trivial, .inl fun old replaced => replaced⟩

end Puts

theorem kept_of_failed {mutation : Vault.Mutation} {host : Vault.Host}
    {reason : VaultError}
    (performed : Performed (rotating sealing master start) thread before
      (.vault (.mutate mutation)) (host, .error reason) after) :
    Kept sealing master start after ∧ Yields sealing master before after := by
  refine kept_of_unstored performed ?_
    (file_of_failed (perform_of_rotating performed))
  intro key
  cases mutation <;> rfl

theorem safe_openVault (even : Even thread moment) :
    Safe (rotating sealing master start) thread
      (fun opened after => Even thread after ∧ ∀ value, opened = .ok value →
        ∃ handle, Reads sealing master thread handle after)
      openVault moment := by
  apply Safe.call Even.stable even
  rintro before ⟨host, answer⟩ after held performed
  have looking : (Call.vault .open : Call Rest).IsLooking := trivial
  obtain ⟨kept, yields⟩ := kept_of_looking looking performed
  refine ⟨kept, yields, even_of_unstored performed
    (fun key => stores?_of_looking looking key thread _) held, ?_⟩
  intro value opened
  cases answer with
  | error reason => cases opened
  | ok answer =>
    obtain ⟨handle, opens, reads⟩ :=
      opened_of_open (perform_of_rotating performed)
    refine ⟨handle, opens, ?_, .inr (reads trackerToken)⟩
    exact ⟨before.past, host, answer, [], by rw [performed.past]⟩

theorem safe_preservePrevious (lawful : sealing.Lawful) {new : String}
    (reads : Reads sealing master thread handle moment)
    (even : Even thread moment) :
    Safe (rotating sealing master start) thread
      (fun preserved after => ∀ value, preserved = .ok value →
        Ready sealing master thread new after)
      (preservePrevious
        (handle.get sealing.toCrypto trackerToken).toOption.join new)
      moment := by
  obtain ⟨opened, since, current⟩ := reads
  have ready : ∀ old,
      (handle.get sealing.toCrypto trackerToken).toOption.join = old →
        old = none ∨ old = some new →
          Ready sealing master thread new moment := by
    rintro old held unreplaced
    refine ⟨⟨handle, opened⟩, since, ?_⟩
    rcases current with raced | same
    · exact .inl raced
    · exact .inr (.inl ⟨by rwa [same, held], even⟩)
  cases held : (handle.get sealing.toCrypto trackerToken).toOption.join with
  | none => exact fun _ _ => ready none held (.inl rfl)
  | some current =>
    simp only [preservePrevious]
    split
    · rename_i same
      exact fun _ _ => ready (some current) held (.inr (by rw [same]))
    · rename_i different
      apply Safe.call Reads.stable ⟨opened, since, ‹_›⟩
      rintro before ⟨host, answer⟩ after reads performed
      cases answer with
      | error reason =>
        obtain ⟨kept, yields⟩ := kept_of_failed performed
        exact ⟨kept, yields, fun _ failed => nomatch failed⟩
      | ok given =>
        obtain ⟨kept, yields, ready⟩ :=
          ready_of_preserved lawful reads held different performed
        exact ⟨kept, yields, fun _ _ => ready⟩

theorem safe_rotateTrackerTokenIn (lawful : sealing.Lawful) (new : String)
    (reads : Reads sealing master thread handle moment)
    (even : Even thread moment) :
    Safe (rotating sealing master start) thread
      (fun rotated after => ∀ value, rotated = .ok value → Even thread after)
      (rotateTrackerTokenIn new) moment := by
  apply Safe.call (Reads.stable.and Even.stable) ⟨reads, even⟩
  rintro before ⟨host, answer⟩ after ⟨reads, even⟩ performed
  have looking : (Call.vault (.get trackerToken) : Call Rest).IsLooking :=
    trivial
  obtain ⟨kept, yields⟩ := kept_of_looking looking performed
  refine ⟨kept, yields, ?_⟩
  obtain ⟨same, answered⟩ := vault_of_get (perform_of_rotating performed)
  have got := answered handle reads.1.1
  have still : Reads sealing master thread handle after := by
    obtain ⟨opened, since, current⟩ := reads
    refine ⟨same ▸ opened, performed.past ▸ since.append _, ?_⟩
    rw [same, performed.past]
    exact current.imp_left fun raced => raced.append _
  have stillEven := even_of_unstored performed
    (fun key => stores?_of_looking looking key thread _) even
  cases read : handle.get sealing.toCrypto trackerToken with
  | error reason =>
    rw [read] at got
    subst got
    exact fun _ failed => nomatch failed
  | ok value =>
    rw [read] at got
    subst got
    have values : readValue (.got value) =
        (handle.get sealing.toCrypto trackerToken).toOption.join := by
      rw [read]
      rfl
    simp only [Except.map, values]
    refine (safe_preservePrevious lawful still stillEven).bind ?_
    intro preserved later ready
    apply Safe.proceed
    · exact fun _ _ _ failed => nomatch failed
    · intro done went
      apply Safe.call Ready.stable (ready done went)
      rintro before ⟨host, answer⟩ after ready performed
      cases answer with
      | error reason =>
        obtain ⟨kept, yields⟩ := kept_of_failed performed
        exact ⟨kept, yields, fun _ failed => nomatch failed⟩
      | ok given =>
        obtain ⟨kept, yields, even⟩ := even_of_put lawful ready performed
        exact ⟨kept, yields, fun _ _ => even⟩

theorem safe_rotateTrackerToken (lawful : sealing.Lawful) (new : String)
    (even : Even thread moment) :
    Safe (rotating sealing master start) thread
      (fun rotated after => ∀ value, rotated = .ok value → Even thread after)
      (rotateTrackerToken new) moment := by
  refine (safe_openVault even).bind ?_
  rintro opened later ⟨even, reads⟩
  apply Safe.proceed
  · exact fun _ _ _ failed => nomatch failed
  · intro value went
    obtain ⟨handle, reads⟩ := reads value went
    refine (safe_rotateTrackerTokenIn lawful new reads even).bind ?_
    intro rotated later even
    apply Safe.proceed
    · exact fun _ _ _ failed => nomatch failed
    · intro done rotated
      have tail : ((.call (.invalidate "the tracker token rotated") fun _ =>
          .call .resetLegacyTokenStatus fun _ => .done (.ok ()) :
            Program Rest (Except String Unit))).Only Call.IsLooking :=
        ⟨trivial, fun _ => ⟨trivial, fun _ => trivial⟩⟩
      exact (safe_of_looking tail (even done rotated)).mono
        fun _ _ held _ _ => held

omit [DecidableEq Rest] in
theorem Call.IsPlain.looking {wanted : Call Rest} (plain : wanted.IsPlain) :
    wanted.IsLooking := by
  cases wanted with
  | vault wanted => exact plain.elim
  | _ => trivial

/-- The job of a request that rotates the token. -/
def Job.IsRotation {Doc : Type} : Job Doc → Prop
  | .idle => True
  | .saveTracker _ _ token clearToken =>
    clearToken = false ∧ Rust.trim token ≠ ""
  | .generateSecret _ => True
  | _ => False

/-- A rotation that answers success leaves nothing half done. -/
def Settled (thread : Nat) (response : Response)
    (moment : Moment Cipher Rest) : Prop :=
  (∃ message, response = .rejected message) ∨ Even thread moment

theorem Settled.stable {response : Response} :
    (rotating sealing master start).Stable thread
      (Settled thread response : Moment Cipher Rest → Prop) := by
  rintro before after (rejected | even) others
  · exact .inl rejected
  · exact .inr (Even.stable before after even others)

theorem safe_refuse (reason : String) :
    Safe (rotating sealing master start) thread (Settled thread)
      (refuse reason) moment := by
  have anything : (rotating sealing master start).Stable thread
      fun _ : Moment Cipher Rest => True :=
    fun _ _ _ _ => trivial
  apply Safe.call anything trivial
  intro before answer after _ performed
  have looking : (Call.unlockConfigWrite : Call Rest).IsLooking := trivial
  obtain ⟨kept, yields⟩ := kept_of_looking looking performed
  exact ⟨kept, yields, .inl ⟨reason, rfl⟩⟩

theorem safe_generateSecret (lawful : sealing.Lawful) (field : String)
    (even : Even thread moment) :
    Safe (rotating sealing master start) thread (Settled thread)
      (generateSecret field) moment := by
  simp only [generateSecret]
  split
  · exact .inl ⟨_, rfl⟩
  · apply Safe.call Even.stable even
    rintro before drawn after even performed
    have looking : (Call.randomHex : Call Rest).IsLooking := trivial
    obtain ⟨kept, yields⟩ := kept_of_looking looking performed
    refine ⟨kept, yields, ?_⟩
    have still := even_of_unstored performed
      (fun key => stores?_of_looking looking key thread _) even
    cases drawn with
    | error reason => exact .inl ⟨_, rfl⟩
    | ok generated =>
      refine (safe_rotateTrackerToken lawful generated still).bind ?_
      intro rotated later even
      cases rotated with
      | error reason => exact .inl ⟨_, rfl⟩
      | ok value => exact .inr (even value rfl)

theorem safe_saveTracker {Doc : Type} (lawful : sealing.Lawful)
    (documents : Documents Doc Rest) (next : Option String)
    (edit : Doc → Except String Doc) {token : String}
    (typed : Rust.trim token ≠ "") (even : Even thread moment) :
    Safe (rotating sealing master start) thread (Settled thread)
      (saveTracker documents next edit token false) moment := by
  have plain := (prepareConfig_plain documents edit).mono
    fun _ => Call.IsPlain.looking
  refine (safe_of_looking plain even).bind ?_
  intro prepared later even
  cases prepared with
  | error reason => exact .inl ⟨_, rfl⟩
  | ok pending =>
    simp only [saveTrackerToken, if_neg Bool.false_ne_true, if_pos typed]
    split
    · exact safe_refuse _
    · refine (safe_rotateTrackerToken lawful _ even).bind ?_
      intro rotated later even
      cases rotated with
      | error reason => exact safe_refuse reason
      | ok value =>
        have commits := (commitConfig_plain "tracker" next pending).mono
          fun _ => Call.IsPlain.looking
        exact (safe_of_looking commits (even value rfl)).mono
          fun _ _ held => .inr held

theorem safe_rotation {Doc : Type} (lawful : sealing.Lawful)
    (documents : Documents Doc Rest) {job : Job Doc} (rotation : job.IsRotation)
    (even : Even thread moment) :
    Safe (rotating sealing master start) thread (Settled thread)
      (job.program documents) moment := by
  cases job with
  | idle => exact .inr even
  | saveTracker next edit token clearToken =>
    obtain ⟨rfl, typed⟩ := rotation
    exact safe_saveTracker lawful documents next edit typed even
  | generateSecret field => exact safe_generateSecret lawful field even
  | _ => exact rotation.elim

/-- The slots of a run of rotations: the previous one holds the token that the
finally current one replaced, and neither of the two is refused. -/
structure Graced (sealing : Sealing Cipher) (master : String)
    (before after : World Cipher Rest) (trace : List (Event Rest)) :
    Prop where
  current : slot sealing master after trackerToken =
    (succession (slot sealing master before trackerToken) trace).current
  previous : ∀ old,
    (succession (slot sealing master before trackerToken) trace).replaced =
      some old → slot sealing master after trackerTokenPrevious = some old
  admitted : ∀ token,
    (succession (slot sealing master before trackerToken) trace).current =
        some token ∨
      (succession (slot sealing master before trackerToken) trace).replaced =
        some token →
      ∀ store query, ∃ auth, Tracker.authenticateToken store query
        (slot sealing master after trackerToken)
        (slot sealing master after trackerTokenPrevious) (some token) =
          .ok auth

theorem authenticateToken_of_slots {current previous : Option String}
    {token : String} (held : current = some token ∨ previous = some token)
    (store : PeerTable) (query : Except StoreError Unit) :
    ∃ auth, Tracker.authenticateToken store query current previous
      (some token) = .ok auth := by
  have same : Tracker.constantTimeEq token token = true :=
    Tracker.constantTimeEq_iff.mpr rfl
  cases current with
  | none => exact ⟨_, rfl⟩
  | some required =>
    simp only [Tracker.authenticateToken]
    split
    · exact ⟨_, rfl⟩
    · rename_i different
      rcases held with now | before
      · cases now
        exact absurd same different
      · simp [before, same]

/-- In every run of rotations of which none puts a token after another one did
since it opened its handle, once all have answered success. -/
theorem graced_of_unraced {Doc : Type} (lawful : sealing.Lawful)
    (documents : Documents Doc Rest) (world : World Cipher Rest)
    (jobs : Nat → Job Doc) (rotations : ∀ thread, (jobs thread).IsRotation)
    (trace : List (Event Rest))
    (reached : Process.Pool Nat (World Cipher Rest) (Call Rest) Answer
      Response)
    (run : Process.Run (perform sealing master) Unraced
      (pool documents world jobs) trace reached)
    (succeeded : ∀ thread, ∃ response,
      reached.threads thread = .done response ∧
        ∀ message, response ≠ .rejected message) :
    Graced sealing master world reached.world trace := by
  have sound : Process.Sound
      (rotating sealing master (slot sealing master world trackerToken))
      Settled trace reached := by
    refine Process.Run.sound (fun _ _ => Settled.stable) run ⟨⟨rfl, ?_⟩, ?_⟩
    · exact .inl fun old replaced => nomatch replaced
    · exact fun thread => safe_rotation lawful documents (rotations thread) rfl
  obtain ⟨current, previous | ⟨thread, half⟩⟩ := sound.holds
  · refine ⟨current, previous, fun token seen => ?_⟩
    rcases seen with now | before
    · exact authenticateToken_of_slots (.inl (current.trans now))
    · exact authenticateToken_of_slots (.inr (previous token before))
  · obtain ⟨response, finished, success⟩ := succeeded thread
    rcases sound.finished finished with ⟨message, rejected⟩ | even
    · exact absurd rejected (success message)
    · rw [Even, half] at even
      cases even

end Protocol

/-- A vault with an announce token. -/
def tokenVault : Vault.World String :=
  .start ((Vault.World.start none).run Vault.tagging
    [.open 0 "master" (Vault.World.goodHost 1 0),
      .mutate 0 (Vault.World.goodHost 0 1) (.put trackerToken "first")]).file

def rotationWorld : World String String :=
  ⟨tokenVault, none, some "", ⟨"", []⟩, none, .fresh⟩

/-- The operator types a token while another page generates one. -/
def twoRotations : Nat → Job String
  | 0 => .saveTracker none .ok "typed" false
  | 1 => .generateSecret "tracker"
  | _ => .idle

def vaultEvent (thread : Nat) (wanted : VaultCall) (nonce : UInt8)
    (answer : Vault.Answer) : Event String :=
  ⟨thread, .vault wanted, (Vault.World.goodHost 1 nonce, .ok answer)⟩

/-- A rotation up to its first put. -/
def readsToken (thread : Nat) (current : String) : List (Event String) :=
  [vaultEvent thread .open 0 .opened,
    vaultEvent thread (.get trackerToken) 0 (.got (some current))]

/-- The two puts of a rotation and what it drops after them. -/
def putsTokens (thread : Nat) (current new : String) : List (Event String) :=
  [vaultEvent thread (.mutate (.put trackerTokenPrevious current)) 2 .stored,
    vaultEvent thread (.mutate (.put trackerToken new)) 3 .stored,
    ⟨thread, .invalidate "the tracker token rotated", ()⟩,
    ⟨thread, .resetLegacyTokenStatus, ()⟩]

def preparesSave : List (Event String) :=
  [⟨0, .lockConfigWrite, ()⟩, ⟨0, .readConfigError, none⟩,
    ⟨0, .readFile, .ok ""⟩]

def commitsSave : List (Event String) :=
  [⟨0, .writeFile false "", .ok ()⟩, ⟨0, .writeConfig ⟨"", []⟩, ()⟩,
    ⟨0, .clearConfigError, ()⟩, ⟨0, .invalidate "configuration changed", ()⟩,
    ⟨0, .unlockConfigWrite, ()⟩]

def mints : Event String := ⟨1, .randomHex, .ok "minted"⟩

/-- What a run of the two leaves: their answers and the two slots. -/
def rotationView (reached : Process.Pool Nat (World String String)
    (Call String) Answer Response) :
    List (Option Response) × Option String × Option String :=
  ([(reached.threads 0).result?, (reached.threads 1).result?],
    slot Vault.tagging "master" reached.world trackerToken,
    slot Vault.tagging "master" reached.world trackerTokenPrevious)

/-- Whether no other thread put a token since an opening. -/
def racedFrom (thread : Nat) : List (Event String) → Bool
  | [] => false
  | ⟨other, .vault .open, (_, .ok _)⟩ :: later =>
    (other = thread && later.any fun event =>
      event.thread ≠ thread && (stores? trackerToken event).isSome) ||
      racedFrom thread later
  | _ :: later => racedFrom thread later

theorem racedFrom_of_raced {thread : Nat} {past : List (Event String)}
    (raced : Raced thread past) : racedFrom thread past = true := by
  obtain ⟨earlier, host, answer, later, rfl, event, member, different,
    stored⟩ := raced
  induction earlier with
  | nil =>
    simp only [List.nil_append, racedFrom, Bool.or_eq_true]
    left
    simp only [decide_true, Bool.true_and, List.any_eq_true]
    exact ⟨event, member, by simp [different, stored]⟩
  | cons first earlier ih =>
    simp only [List.cons_append]
    unfold racedFrom
    split
    · cases ‹_ = []›
    · rename_i whole
      cases whole
      simp [ih]
    · rename_i whole
      cases whole
      exact ih

def unraced (moment : Moment String String) (event : Event String) : Bool :=
  !((stores? trackerToken event).isSome ||
      (stores? trackerTokenPrevious event).isSome) ||
    !racedFrom event.thread moment.past

theorem unraced_of_check {moment : Moment String String}
    {event : Event String} (checked : unraced moment event = true) :
    Unraced moment event := by
  intro stored raced
  have late := racedFrom_of_raced raced
  simp only [unraced, late, Bool.not_true, Bool.or_false,
    Bool.not_eq_true', Bool.or_eq_false_iff] at checked
  rcases stored with new | old
  · rw [checked.1] at new
    cases new
  · rw [checked.2] at old
    cases old

/-- A run of the two that both answered success. -/
theorem run_of_rotationView
    {condition : Process.Condition Nat (World String String) (Call String)
      Answer}
    (check : Moment String String → Event String → Bool)
    (checked : ∀ moment event, check moment event = true →
      condition moment event)
    (events : List (Event String)) (current previous : Option String)
    (replayed : (Process.replay (perform Vault.tagging "master") check []
        (pool plainDocuments rotationWorld twoRotations) events).map
          rotationView =
      some ([some (.redirect "/settings?saved=tracker"),
        some (.revealed "minted")], current, previous))
    (theirs : ∀ event ∈ events, event.thread < 2) :
    ∃ reached, Process.Run (perform Vault.tagging "master") condition
        (pool plainDocuments rotationWorld twoRotations) events reached ∧
      (∀ thread, ∃ response, reached.threads thread = .done response ∧
        ∀ message, response ≠ .rejected message) ∧
        slot Vault.tagging "master" reached.world trackerToken = current ∧
          slot Vault.tagging "master" reached.world trackerTokenPrevious =
            previous := by
  obtain ⟨reached, run, seen⟩ :=
    Process.Run.exists_of_replay checked replayed
  simp only [rotationView, Prod.mk.injEq, List.cons.injEq, and_true] at seen
  obtain ⟨⟨first, second⟩, now, before⟩ := seen
  refine ⟨reached, run, fun thread => ?_, now, before⟩
  match thread with
  | 0 => exact ⟨_, Prog.eq_done_of_result? first, nofun⟩
  | 1 => exact ⟨_, Prog.eq_done_of_result? second, nofun⟩
  | other + 2 =>
    refine ⟨.finished, ?_, nofun⟩
    rw [run.untouched fun event member => by
      have := theirs event member
      omega]
    rfl

/-- The save comes after the generated token, and keeps it as the previous
one. -/
theorem rotated_twice :
    ∃ trace reached, Process.Run (perform Vault.tagging "master") Unraced
        (pool plainDocuments rotationWorld twoRotations) trace reached ∧
      (∀ thread, ∃ response, reached.threads thread = .done response ∧
        ∀ message, response ≠ .rejected message) ∧
        Graced Vault.tagging "master" rotationWorld reached.world trace := by
  obtain ⟨reached, run, succeeded, -, -⟩ :=
    run_of_rotationView unraced (fun _ _ checked => unraced_of_check checked)
      (mints :: readsToken 1 "first" ++ putsTokens 1 "first" "minted" ++
        preparesSave ++ readsToken 0 "minted" ++
        putsTokens 0 "minted" "typed" ++ commitsSave)
      (some "typed") (some "minted") (by decide +kernel) (by decide)
  refine ⟨_, reached, run, succeeded, ?_⟩
  exact graced_of_unraced Vault.tagging_lawful plainDocuments rotationWorld
    twoRotations
    (fun thread => match thread with
      | 0 => ⟨rfl, by decide⟩
      | 1 => trivial
      | _ + 2 => trivial)
    _ reached run succeeded

/-- The token is generated while the save has read the old one, which then
takes the place of the generated token in the previous slot. -/
theorem generated_token_refused :
    ∃ trace reached, Process.Run (perform Vault.tagging "master") .always
        (pool plainDocuments rotationWorld twoRotations) trace reached ∧
      (∀ thread, ∃ response, reached.threads thread = .done response ∧
        ∀ message, response ≠ .rejected message) ∧
        ¬ Graced Vault.tagging "master" rotationWorld reached.world trace := by
  obtain ⟨reached, run, succeeded, -, held⟩ :=
    run_of_rotationView (fun _ _ => true) (fun _ _ _ => trivial)
      (preparesSave ++ readsToken 0 "first" ++ mints :: readsToken 1 "first" ++
        putsTokens 1 "first" "minted" ++ putsTokens 0 "first" "typed" ++
        commitsSave)
      (some "typed") (some "first") (by decide +kernel) (by decide)
  refine ⟨_, reached, run, succeeded, fun graced => ?_⟩
  have previous := graced.previous "minted" (by decide +kernel)
  rw [held] at previous
  revert previous
  decide

end Settings

end Sharerr
