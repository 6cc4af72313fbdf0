import Mathlib.Data.List.Basic
import Mathlib.Data.List.TakeWhile

/-!
# A limit for each window

A window is opened by the first event after the one before it has ended, and
admits so many events.  What is admitted of a run is known in full: of each
window its opening event and the next ones, up to the limit.
-/

namespace FixedWindow

structure Window where
  spent : Nat
  start : Nat
deriving DecidableEq, Repr

/-- The limit, the length of a window, and that there is room for an event. -/
structure Limit where
  most : Nat
  length : Nat
  some_ : 0 < most
  positive : 0 < length

variable (limit : Limit)

/-- The window that is still open at an instant. -/
def live (now : Nat) (open_ : Option Window) : Option Window :=
  open_.filter fun window => now - window.start < limit.length

/-- The answer to an event, and the window it leaves open; a refusal says how
long the window lasts. -/
def turn (open_ : Option Window) (now : Nat) : Except Nat Unit × Window :=
  let window := (live limit now open_).getD ⟨0, now⟩
  if limit.most ≤ window.spent then
    (.error (limit.length - (now - window.start)), window)
  else (.ok (), { window with spent := window.spent + 1 })

/-- The answers to events one after the other, each with its instant. -/
def answers : Option Window → List Nat → List (Nat × Except Nat Unit)
  | _, [] => []
  | open_, now :: later =>
    (now, (turn limit open_ now).1) ::
      answers (some (turn limit open_ now).2) later

/-- The instants of the events that were admitted. -/
def admitted (log : List (Nat × Except Nat Unit)) : List Nat :=
  (log.filter fun entry => entry.2.toBool).map (·.1)

section Turns

variable {limit} {open_ : Option Window} {window : Window} {now later : Nat}

theorem live_live (order : now ≤ later) :
    live limit later (live limit now open_) = live limit later open_ := by
  cases open_ with
  | none => rfl
  | some window =>
    simp only [live, Option.filter_some]
    split
    · rfl
    · next ended =>
        have gone : ¬ later - window.start < limit.length := by
          simp only [decide_eq_true_eq] at ended
          omega
        rw [if_neg (by simpa using gone)]
        rfl

theorem turn_live (order : now ≤ later) :
    turn limit (live limit now open_) later = turn limit open_ later := by
  rw [turn, live_live order]
  rfl

theorem answers_live {times : List Nat} (order : ∀ time ∈ times, now ≤ time) :
    answers limit (live limit now open_) times =
      answers limit open_ times := by
  cases times with
  | nil => rfl
  | cons first times =>
    rw [answers, answers, turn_live (order first List.mem_cons_self)]

theorem live_some (inside : now < window.start + limit.length) :
    live limit now (some window) = some window := by
  refine Option.filter_eq_some_iff.mpr ⟨rfl, decide_eq_true ?_⟩
  have positive := limit.positive
  omega

theorem live_ended (ended : window.start + limit.length ≤ now) :
    live limit now (some window) = none := by
  refine Option.filter_eq_none_iff.mpr fun other same => ?_
  cases same
  simp only [decide_eq_true_eq]
  omega

theorem turn_none : turn limit none now = (.ok (), ⟨1, now⟩) :=
  if_neg (Nat.not_le_of_lt limit.some_)

theorem turn_ended (ended : window.start + limit.length ≤ now) :
    turn limit (some window) now = (.ok (), ⟨1, now⟩) := by
  have same : turn limit (some window) now = turn limit none now := by
    rw [turn, live_ended ended]
    rfl
  rw [same, turn_none]

theorem turn_room (inside : now < window.start + limit.length)
    (room : window.spent < limit.most) : turn limit (some window) now =
      (.ok (), ⟨window.spent + 1, window.start⟩) := by
  rw [turn, live_some inside]
  exact if_neg (Nat.not_le_of_lt room)

theorem turn_full (inside : now < window.start + limit.length)
    (full : limit.most ≤ window.spent) : turn limit (some window) now =
      (.error (limit.length - (now - window.start)), window) := by
  rw [turn, live_some inside]
  exact if_pos full

theorem of_turn_error {wait : Nat}
    (refused : (turn limit open_ now).1 = .error wait) :
    open_ = some (turn limit open_ now).2 ∧
      now < (turn limit open_ now).2.start + limit.length ∧
        limit.most ≤ (turn limit open_ now).2.spent ∧
          wait = limit.length - (now - (turn limit open_ now).2.start) := by
  cases open_ with
  | none =>
    rw [turn_none] at refused
    cases refused
  | some window =>
    by_cases inside : now < window.start + limit.length
    · by_cases room : window.spent < limit.most
      · rw [turn_room inside room] at refused
        cases refused
      · have full := Nat.le_of_not_lt room
        rw [turn_full inside full] at refused ⊢
        cases refused
        exact ⟨rfl, inside, full, rfl⟩
    · rw [turn_ended (Nat.le_of_not_lt inside)] at refused
      cases refused

end Turns

section Admitted

variable {limit} {window : Window} {now : Nat} {later : List Nat}

theorem admitted_ok (log : List (Nat × Except Nat Unit)) :
    admitted ((now, .ok ()) :: log) = now :: admitted log :=
  rfl

theorem admitted_error (wait : Nat) (log : List (Nat × Except Nat Unit)) :
    admitted ((now, .error wait) :: log) = admitted log :=
  rfl

/-- Of the events while a window is open as many are admitted as there is room
for, and the others begin a new one. -/
theorem admitted_open (window : Window) (times : List Nat) :
    admitted (answers limit (some window) times) =
      (times.takeWhile (· < window.start + limit.length)).take
          (limit.most - window.spent) ++
        admitted (answers limit none
          (times.dropWhile (· < window.start + limit.length))) := by
  induction times generalizing window with
  | nil => simp [answers, admitted]
  | cons now later ih =>
    by_cases inside : now < window.start + limit.length
    · rw [List.takeWhile_cons_of_pos (by simpa using inside),
        List.dropWhile_cons_of_pos (by simpa using inside)]
      by_cases room : window.spent < limit.most
      · rw [answers, turn_room inside room, admitted_ok, ih]
        obtain ⟨left, same⟩ : ∃ left, limit.most - window.spent = left + 1 :=
          ⟨limit.most - window.spent - 1, by omega⟩
        rw [same, List.take_succ_cons, List.cons_append,
          show limit.most - (window.spent + 1) = left by omega]
      · have full := Nat.le_of_not_lt room
        rw [answers, turn_full inside full, admitted_error, ih,
          Nat.sub_eq_zero_of_le full, List.take_zero, List.take_zero]
    · rw [List.takeWhile_cons_of_neg (by simpa using inside),
        List.dropWhile_cons_of_neg (by simpa using inside), List.take_nil,
        List.nil_append, answers, answers,
        turn_ended (Nat.le_of_not_lt inside), turn_none]

/-- Of a run the opening event is admitted, what its window has room for, and
what is of the rest. -/
theorem admitted_cons (now : Nat) (later : List Nat) :
    admitted (answers limit none (now :: later)) =
      now :: (later.takeWhile (· < now + limit.length)).take
          (limit.most - 1) ++
        admitted (answers limit none
          (later.dropWhile (· < now + limit.length))) := by
  rw [answers, turn_none, admitted_ok, admitted_open]
  rfl

theorem window_induction (length : Nat) {motive : List Nat → Prop}
    (nil : motive []) (cons : ∀ now later,
      motive (later.dropWhile (· < now + length)) → motive (now :: later))
    (times : List Nat) : motive times := by
  generalize size : times.length = bound
  induction bound using Nat.strongRecOn generalizing times with
  | _ bound ih =>
    cases times with
    | nil => exact nil
    | cons now later =>
      refine cons now later (ih _ ?_ _ rfl)
      have shorter := (later.dropWhile_sublist (· < now + length)).length_le
      rw [List.length_cons] at size
      omega

theorem mem_of_admitted {times : List Nat} {time : Nat}
    (member : time ∈ admitted (answers limit none times)) : time ∈ times := by
  induction times using window_induction limit.length with
  | nil => cases member
  | cons now later ih =>
    rw [admitted_cons, List.mem_append, List.mem_cons] at member
    rcases member with (rfl | inside) | after
    · exact List.mem_cons_self
    · exact List.mem_cons_of_mem _
        ((List.takeWhile_sublist _).subset (List.mem_of_mem_take inside))
    · exact List.mem_cons_of_mem _
        ((List.dropWhile_sublist _).subset (ih after))

theorem le_of_mem_dropWhile {times : List Nat} {bound time : Nat}
    (inOrder : times.Pairwise (· ≤ ·))
    (member : time ∈ times.dropWhile (· < bound)) : bound ≤ time := by
  induction times with
  | nil => cases member
  | cons first times ih =>
    obtain ⟨least, inOrder⟩ := List.pairwise_cons.mp inOrder
    by_cases before : first < bound
    · rw [List.dropWhile_cons_of_pos (by simpa using before)] at member
      exact ih inOrder member
    · rw [List.dropWhile_cons_of_neg (by simpa using before)] at member
      rcases List.mem_cons.mp member with rfl | later
      · exact Nat.le_of_not_lt before
      · exact Nat.le_trans (Nat.le_of_not_lt before) (least time later)

end Admitted

/-- An instant that opens a window: the first, or the first that is left after
the windows before it. -/
inductive Opens (length : Nat) : List Nat → Nat → Prop where
  | first {start : Nat} {later : List Nat} : Opens length (start :: later) start
  | next {first start : Nat} {later : List Nat}
      (opens : Opens length (later.dropWhile (· < first + length)) start) :
      Opens length (first :: later) start

/-- How many instants there are from one to another, the last left out. -/
def within (first last : Nat) (times : List Nat) : Nat :=
  times.countP fun time => decide (first ≤ time ∧ time < last)

section Counts

variable {limit} {times : List Nat} {first last start : Nat}

theorem within_append (left right : List Nat) :
    within first last (left ++ right) =
      within first last left + within first last right :=
  List.countP_append

theorem within_le_length (times : List Nat) :
    within first last times ≤ times.length :=
  List.countP_le_length

theorem within_eq_zero (outside : ∀ time ∈ times, time < first ∨ last ≤ time) :
    within first last times = 0 := by
  refine List.countP_eq_zero.mpr fun time member => ?_
  rw [decide_eq_true_iff]
  have away := outside time member
  omega

/-- The window an event opens: no more than the limit are admitted before its
end, and the others after it. -/
structure Chunk (limit : Limit) (now : Nat) (later chunk rest : List Nat) :
    Prop where
  whole : admitted (answers limit none (now :: later)) =
    now :: chunk ++ admitted (answers limit none rest)
  few : (now :: chunk).length ≤ limit.most
  before : ∀ time ∈ now :: chunk, now ≤ time ∧ time < now + limit.length
  after : ∀ time ∈ admitted (answers limit none rest),
    now + limit.length ≤ time

theorem exists_chunk (limit : Limit) {now : Nat} {later : List Nat}
    (inOrder : (now :: later).Pairwise (· ≤ ·)) : ∃ chunk,
      Chunk limit now later chunk
        (later.dropWhile (· < now + limit.length)) := by
  obtain ⟨least, inOrder⟩ := List.pairwise_cons.mp inOrder
  have some_ := limit.some_
  have positive := limit.positive
  refine ⟨_, admitted_cons now later, ?_, ?_, ?_⟩
  · rw [List.length_cons, List.length_take]
    omega
  · intro time member
    rcases List.mem_cons.mp member with rfl | inside
    · omega
    · have taken := List.mem_of_mem_take inside
      have inside := List.mem_takeWhile_imp taken
      exact ⟨least time ((List.takeWhile_sublist _).subset taken),
        of_decide_eq_true inside⟩
  · intro time member
    exact le_of_mem_dropWhile inOrder (mem_of_admitted member)

theorem Opens.mem {length : Nat} (opens : Opens length times start) :
    start ∈ times := by
  induction opens with
  | first => exact List.mem_cons_self
  | next _ ih =>
    exact List.mem_cons_of_mem _ ((List.dropWhile_sublist _).subset ih)

theorem pairwise_rest {now bound : Nat} {later : List Nat}
    (inOrder : (now :: later).Pairwise (· ≤ ·)) :
    (later.dropWhile (· < bound)).Pairwise (· ≤ ·) :=
  (List.pairwise_cons.mp inOrder).2.sublist (List.dropWhile_sublist _)

/-- A window admits no more than the limit. -/
theorem opened_le (inOrder : times.Pairwise (· ≤ ·))
    (opens : Opens limit.length (admitted (answers limit none times)) start) :
    within start (start + limit.length) (admitted (answers limit none times)) ≤
      limit.most := by
  induction times using window_induction limit.length with
  | nil => cases opens
  | cons now later ih =>
    obtain ⟨chunk, whole, few, before, after⟩ := exists_chunk limit inOrder
    rw [whole] at opens ⊢
    rw [within_append]
    cases opens with
    | first =>
      rw [within_eq_zero fun time member => .inr (after time member)]
      exact Nat.le_trans (within_le_length _) few
    | next opens =>
      have left : (chunk ++ admitted (answers limit none
          (later.dropWhile (· < now + limit.length)))).dropWhile
            (· < now + limit.length) =
          admitted (answers limit none
            (later.dropWhile (· < now + limit.length))) := by
        rw [List.dropWhile_append_of_pos, List.dropWhile_eq_self_iff]
        · intro some_
          simpa using after _ (List.getElem_mem some_)
        · intro time member
          exact decide_eq_true
            (before time (List.mem_cons_of_mem _ member)).2
      rw [List.append_eq, left] at opens
      have late := after start opens.mem
      rw [within_eq_zero fun time member => .inl
        (Nat.lt_of_lt_of_le (before time member).2 late), Nat.zero_add]
      exact ih (pairwise_rest inOrder) opens

theorem front_le (inOrder : times.Pairwise (· ≤ ·))
    (later : ∀ time ∈ admitted (answers limit none times), start < time) :
    within start (start + limit.length + 1)
      (admitted (answers limit none times)) ≤ limit.most := by
  cases times with
  | nil => exact Nat.zero_le _
  | cons now rest =>
    obtain ⟨chunk, whole, few, -, after⟩ := exists_chunk limit inOrder
    rw [whole] at later ⊢
    have first := later now (List.mem_append_left _ List.mem_cons_self)
    have none_ : within start (start + limit.length + 1)
        (admitted (answers limit none
          (rest.dropWhile (· < now + limit.length)))) = 0 := by
      refine within_eq_zero fun time member => .inr ?_
      have far := after time member
      omega
    rw [within_append, none_]
    exact Nat.le_trans (within_le_length _) few

/-- Any interval of the length of a window, both ends included, admits no more
than twice the limit. -/
theorem anywhere_le (inOrder : times.Pairwise (· ≤ ·)) (start : Nat) :
    within start (start + limit.length + 1)
      (admitted (answers limit none times)) ≤ 2 * limit.most := by
  induction times using window_induction limit.length with
  | nil => exact Nat.zero_le _
  | cons now later ih =>
    obtain ⟨chunk, whole, few, before, after⟩ := exists_chunk limit inOrder
    rw [whole, within_append]
    by_cases reached : ∃ time ∈ now :: chunk, start ≤ time
    · obtain ⟨time, member, from_⟩ := reached
      have early := (before time member).2
      have here : within start (start + limit.length + 1) (now :: chunk) ≤
          limit.most :=
        Nat.le_trans (within_le_length _) few
      have later_ : ∀ other ∈ admitted (answers limit none
          (later.dropWhile (· < now + limit.length))), start < other := by
        intro other among
        have late := after other among
        omega
      have there := front_le (pairwise_rest inOrder) later_
      omega
    · rw [within_eq_zero fun time member => .inl (Nat.lt_of_not_le
        fun from_ => reached ⟨time, member, from_⟩), Nat.zero_add]
      exact ih (pairwise_rest inOrder)

end Counts

section Refused

variable {limit} {open_ : Option Window} {window : Window}
  {times : List Nat} {past later : List (Nat × Except Nat Unit)}
  {time now wait : Nat} {answer : Except Nat Unit}

/-- Windows are opened before the events that follow. -/
def Started (open_ : Option Window) (times : List Nat) : Prop :=
  ∀ window ∈ open_, ∀ time ∈ times, window.start ≤ time

theorem turn_start (started : ∀ window ∈ open_, window.start ≤ now) :
    (turn limit open_ now).2.start ≤ now := by
  cases open_ with
  | none =>
    rw [turn_none]
  | some window =>
    by_cases inside : now < window.start + limit.length
    · by_cases room : window.spent < limit.most
      · rw [turn_room inside room]
        exact started window rfl
      · rw [turn_full inside (Nat.le_of_not_lt room)]
        exact started window rfl
    · rw [turn_ended (Nat.le_of_not_lt inside)]

theorem answers_split (inOrder : times.Pairwise (· ≤ ·))
    (started : Started open_ times)
    (log : answers limit open_ times = past ++ (now, answer) :: later) :
    ∃ found rest, answer = (turn limit found now).1 ∧
      later = answers limit (some (turn limit found now).2) rest ∧
        ∀ window ∈ found, window.start ≤ now := by
  induction past generalizing open_ times with
  | nil =>
    cases times with
    | nil => cases log
    | cons first times =>
      rw [answers, List.nil_append, List.cons.injEq, Prod.mk.injEq] at log
      obtain ⟨⟨rfl, rfl⟩, rfl⟩ := log
      exact ⟨open_, times, rfl, rfl, fun window member =>
        started window member first List.mem_cons_self⟩
  | cons entry past ih =>
    cases times with
    | nil => cases log
    | cons first times =>
      obtain ⟨least, inOrder⟩ := List.pairwise_cons.mp inOrder
      rw [answers, List.cons_append, List.cons.injEq] at log
      refine ih inOrder ?_ log.2
      rintro window ⟨⟩ time member
      have begun : (turn limit open_ first).2.start ≤ first :=
        turn_start fun window member =>
          started window member first List.mem_cons_self
      exact Nat.le_trans begun (least time member)

theorem ok_of_refused (full : limit.most ≤ window.spent)
    (log : answers limit (some window) times = past ++ (now, answer) :: later)
    (refused : ∀ entry ∈ past, entry.2 ≠ .ok ())
    (ended : window.start + limit.length ≤ now) : answer = .ok () := by
  induction past generalizing times with
  | nil =>
    cases times with
    | nil => cases log
    | cons first times =>
      rw [answers, List.nil_append, List.cons.injEq, Prod.mk.injEq] at log
      obtain ⟨⟨rfl, rfl⟩, -⟩ := log
      rw [turn_ended ended]
  | cons entry past ih =>
    cases times with
    | nil => cases log
    | cons first times =>
      rw [answers, List.cons_append, List.cons.injEq] at log
      obtain ⟨rfl, log⟩ := log
      obtain ⟨here, refused⟩ := List.forall_mem_cons.mp refused
      by_cases inside : first < window.start + limit.length
      · rw [turn_full inside full] at log
        exact ih log refused
      · rw [turn_ended (Nat.le_of_not_lt inside)] at here
        exact absurd rfl here

/-- Who is refused is told a wait within the length of a window, and is
admitted by the next event after it, however many were refused before. -/
theorem refused_spec (inOrder : times.Pairwise (· ≤ ·))
    (log : answers limit none times = past ++ (now, .error wait) :: later) :
    0 < wait ∧ wait ≤ limit.length ∧
      ∀ between time answer rest, later = between ++ (time, answer) :: rest →
        (∀ entry ∈ between, entry.2 ≠ .ok ()) → now + wait ≤ time →
          answer = .ok () := by
  have unopened : Started none times := by
    rintro window ⟨⟩
  obtain ⟨found, rest, refused, rfl, started⟩ :=
    answers_split inOrder unopened log
  have begun : (turn limit found now).2.start ≤ now := turn_start started
  obtain ⟨-, inside, full, rfl⟩ := of_turn_error refused.symm
  refine ⟨by omega, by omega, ?_⟩
  intro between time answer rest log refused late
  exact ok_of_refused full log refused (by omega)

end Refused

end FixedWindow
