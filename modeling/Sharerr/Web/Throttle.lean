import Sharerr.Process.FixedWindow
import Sharerr.Rust.HashMap
import Sharerr.Rust.IpAddr

/-!
# Throttling sign-ins

Every attempt sweeps the buckets of all addresses and then looks at its own.
A sweep takes nothing away that would still count, so each address goes through
windows of its own, as if it were alone.
-/

namespace Sharerr

namespace Web

open Rust (HashMap IpAddr)

/-- One source address's standing inside the current window. -/
structure Bucket where
  spent : Nat
  windowStarted : Nat
deriving DecidableEq, Repr

structure Throttle where
  inner : HashMap IpAddr Bucket
  maxAttempts : Nat
  window : Nat

namespace Throttle

def new (maxAttempts window : Nat) : Throttle :=
  ⟨.empty, maxAttempts, window⟩

/-- Record one attempt from `ip`; a refusal says after how long the window
resets. -/
def check (throttle : Throttle) (now : Nat) (ip : IpAddr) :
    Except Nat Unit × Throttle :=
  let buckets := throttle.inner.retain fun entry =>
    now - entry.2.windowStarted < throttle.window
  let bucket := (buckets.get ip).getD ⟨0, now⟩
  if throttle.maxAttempts ≤ bucket.spent then
    (.error (throttle.window - (now - bucket.windowStarted)),
      { throttle with inner := buckets.insert ip bucket })
  else
    (.ok (), { throttle with
      inner := buckets.insert ip { bucket with spent := bucket.spent + 1 } })

end Throttle

structure Attempt where
  now : Nat
  ip : IpAddr
deriving DecidableEq, Repr

abbrev Log := List (Attempt × Except Nat Unit)

/-- The answers to attempts one after the other. -/
def Throttle.run (throttle : Throttle) : List Attempt → Log
  | [] => []
  | attempt :: later =>
    (attempt, (throttle.check attempt.now attempt.ip).1) ::
      (throttle.check attempt.now attempt.ip).2.run later

/-- The entries of an address, by their instants. -/
def Log.of (log : Log) (ip : IpAddr) : List (Nat × Except Nat Unit) :=
  (log.filter fun entry => entry.1.ip = ip).map fun entry =>
    (entry.1.now, entry.2)

/-- The instants of an address's attempts. -/
def timesOf (ip : IpAddr) (attempts : List Attempt) : List Nat :=
  (attempts.filter fun attempt => attempt.ip = ip).map (·.now)

/-- When attempts of an address were admitted. -/
def Log.admitted (log : Log) (ip : IpAddr) : List Nat :=
  FixedWindow.admitted (log.of ip)

section Checks

open FixedWindow (Window Limit)

variable {limit : Limit} {throttle : Throttle} {now : Nat} {ip other : IpAddr}

/-- A throttle with a limit. -/
def Keeps (limit : Limit) (throttle : Throttle) : Prop :=
  throttle.maxAttempts = limit.most ∧ throttle.window = limit.length

/-- The window of an address. -/
def windowOf (throttle : Throttle) (ip : IpAddr) : Option Window :=
  (throttle.inner.get ip).map fun bucket =>
    ⟨bucket.spent, bucket.windowStarted⟩

theorem keeps_check (keeps : Keeps limit throttle) :
    Keeps limit (throttle.check now ip).2 := by
  rw [Throttle.check]
  split
  · exact keeps
  · exact keeps

theorem windowOf_retain (keeps : Keeps limit throttle) (now : Nat)
    (ip : IpAddr) :
    ((throttle.inner.retain fun entry =>
      now - entry.2.windowStarted < throttle.window).get ip).map
        (fun bucket => (⟨bucket.spent, bucket.windowStarted⟩ : Window)) =
      FixedWindow.live limit now (windowOf throttle ip) := by
  rw [Rust.HashMap.get_retain, windowOf, FixedWindow.live, keeps.2]
  cases throttle.inner.get ip with
  | none => rfl
  | some bucket =>
    rw [Option.filter_some, Option.map_some, Option.filter_some]
    split <;> rfl

theorem check_own (keeps : Keeps limit throttle) :
    (throttle.check now ip).1 =
        (FixedWindow.turn limit (windowOf throttle ip) now).1 ∧
      windowOf (throttle.check now ip).2 ip =
        some (FixedWindow.turn limit (windowOf throttle ip) now).2 := by
  have swept := windowOf_retain keeps now ip
  rw [FixedWindow.turn, ← swept, Throttle.check]
  simp only [keeps.1, keeps.2]
  cases ((throttle.inner.retain fun entry =>
      now - entry.2.windowStarted < limit.length).get ip) with
  | none =>
    simp only [Option.map_none, Option.getD_none]
    split <;> simp [windowOf, Rust.HashMap.get_insert]
  | some bucket =>
    simp only [Option.map_some, Option.getD_some]
    split <;> simp [windowOf, Rust.HashMap.get_insert]

theorem check_other (keeps : Keeps limit throttle) (different : other ≠ ip) :
    windowOf (throttle.check now ip).2 other =
      FixedWindow.live limit now (windowOf throttle other) := by
  rw [← windowOf_retain keeps, Throttle.check]
  split <;> rw [windowOf, Rust.HashMap.get_insert, if_neg different]

section Entries

variable {attempt : Attempt} {answer : Except Nat Unit} {log : Log}
  {later : List Attempt}

theorem Log.of_own (own : attempt.ip = ip) :
    Log.of ((attempt, answer) :: log) ip =
      (attempt.now, answer) :: log.of ip := by
  rw [Log.of, List.filter_cons_of_pos (by simpa using own)]
  rfl

theorem Log.of_other (other : attempt.ip ≠ ip) :
    Log.of ((attempt, answer) :: log) ip = log.of ip := by
  rw [Log.of, List.filter_cons_of_neg (by simpa using other)]
  rfl

theorem timesOf_own (own : attempt.ip = ip) :
    timesOf ip (attempt :: later) = attempt.now :: timesOf ip later := by
  rw [timesOf, List.filter_cons_of_pos (by simpa using own)]
  rfl

theorem timesOf_other (other : attempt.ip ≠ ip) :
    timesOf ip (attempt :: later) = timesOf ip later := by
  rw [timesOf, List.filter_cons_of_neg (by simpa using other)]
  rfl

end Entries

/-- Each address is answered as its own windows would. -/
theorem run_of (keeps : Keeps limit throttle) {attempts : List Attempt}
    (inOrder : attempts.Pairwise (·.now ≤ ·.now)) (ip : IpAddr) :
    (throttle.run attempts).of ip =
      FixedWindow.answers limit (windowOf throttle ip)
        (timesOf ip attempts) := by
  induction attempts generalizing throttle with
  | nil => rfl
  | cons attempt later ih =>
    obtain ⟨least, inOrder⟩ := List.pairwise_cons.mp inOrder
    have rest : ((throttle.check attempt.now attempt.ip).2.run later).of ip =
        _ := ih (keeps_check keeps) inOrder
    by_cases own : attempt.ip = ip
    · obtain ⟨answer, left⟩ : _ ∧ _ := @check_own limit throttle attempt.now
        attempt.ip keeps
      rw [Throttle.run, Log.of_own own, timesOf_own own, rest, ← own, left,
        answer]
      rfl
    · have swept : windowOf (throttle.check attempt.now attempt.ip).2 ip =
          _ := check_other keeps (Ne.symm own)
      rw [Throttle.run, Log.of_other own, timesOf_other own, rest, swept,
        FixedWindow.answers_live]
      intro time member
      obtain ⟨other, among, rfl⟩ := List.mem_map.mp member
      exact least other (List.mem_filter.mp among).1

end Checks

/-- What an address gets out of a run. -/
structure IsFair (most window : Nat) (attempts : List Attempt) (ip : IpAddr) :
    Prop where
  /-- It is answered as if it were alone. -/
  alone : ((Throttle.new most window).run attempts).of ip =
    ((Throttle.new most window).run
      (attempts.filter fun attempt => attempt.ip = ip)).of ip
  /-- A window it opens admits no more than the limit. -/
  opened : ∀ start, FixedWindow.Opens window
      (((Throttle.new most window).run attempts).admitted ip) start →
    FixedWindow.within start (start + window)
      (((Throttle.new most window).run attempts).admitted ip) ≤ most
  /-- Nor does any interval of that length admit more than twice as many. -/
  anywhere : ∀ start, FixedWindow.within start (start + window + 1)
    (((Throttle.new most window).run attempts).admitted ip) ≤ 2 * most
  /-- A refusal names a wait that is neither nothing nor longer than that. -/
  wait : ∀ past now wait later,
    ((Throttle.new most window).run attempts).of ip =
        past ++ (now, .error wait) :: later →
      0 < wait ∧ wait ≤ window
  /-- After the wait it is let in, whatever was refused before. -/
  letIn : ∀ past now wait between time answer later,
    ((Throttle.new most window).run attempts).of ip =
        past ++ (now, .error wait) :: (between ++ (time, answer) :: later) →
      (∀ entry ∈ between, entry.2 ≠ .ok ()) → now + wait ≤ time →
        answer = .ok ()

/-- An address is limited, and never locked out, whatever the others do. -/
theorem throttle_isFair {most window : Nat} (some_ : 0 < most)
    (positive : 0 < window) {attempts : List Attempt}
    (inOrder : attempts.Pairwise (·.now ≤ ·.now)) (ip : IpAddr) :
    IsFair most window attempts ip := by
  let limit : FixedWindow.Limit := ⟨most, window, some_, positive⟩
  have keeps : Keeps limit (Throttle.new most window) := ⟨rfl, rfl⟩
  have own : ((Throttle.new most window).run attempts).of ip =
      FixedWindow.answers limit none (timesOf ip attempts) :=
    run_of keeps inOrder ip
  have times : (timesOf ip attempts).Pairwise (· ≤ ·) :=
    (inOrder.sublist List.filter_sublist).map _ fun _ _ order => order
  refine ⟨?_, ?_, ?_, ?_, ?_⟩
  · have alone := run_of keeps (inOrder.sublist (List.filter_sublist
      (p := fun attempt => attempt.ip = ip))) ip
    rw [own, alone, timesOf, timesOf, List.filter_filter]
    simp only [Bool.and_self]
    rfl
  · intro start opens
    rw [Log.admitted, own] at opens ⊢
    exact @FixedWindow.opened_le limit _ _ times opens
  · intro start
    rw [Log.admitted, own]
    exact @FixedWindow.anywhere_le limit _ times start
  · intro past now wait later log
    rw [own] at log
    obtain ⟨some_, short, -⟩ := FixedWindow.refused_spec times log
    exact ⟨some_, short⟩
  · intro past now wait between time answer later log refused late
    rw [own] at log
    obtain ⟨-, -, letIn⟩ := FixedWindow.refused_spec times log
    exact letIn between time answer later rfl refused late

/-- Five attempts a minute, of which one address makes six and another one. -/
theorem throttle_isFair_six :
    IsFair 5 60 ((List.range 6).map (fun now => ⟨now, .v4 1#32⟩) ++
      [⟨7, .v4 2#32⟩]) (.v4 1#32) :=
  throttle_isFair (by decide) (by decide) (by decide) (.v4 1#32)

end Web

end Sharerr
