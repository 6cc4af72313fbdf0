import Mathlib.Data.Finset.Card
import Sharerr.Process.History

/-!
# Where the threads of a run have come

How far a thread has come is read off what it asked and was answered: its
place is where these steps lead from the start.  At any moment only finitely
many threads have left the start, so the threads at places of one kind can be
counted.
-/

namespace Process

variable {Thread World Call : Type} {Answer : Call → Type} {Place : Type}
variable [DecidableEq Thread]

section Places

variable (advance : Thread → Place → ((request : Call) × Answer request) →
  Place)
variable (initial : Place)

/-- Where the thread has come. -/
def place (events : List (Event Thread Call Answer)) (thread : Thread) :
    Place :=
  (historyOf thread events).foldl (advance thread) initial

/-- The threads at places of one kind. -/
def standing (kind : Place → Bool)
    (events : List (Event Thread Call Answer)) : Finset Thread :=
  (events.map Event.thread).toFinset.filter fun thread =>
    kind (place advance initial events thread) = true

end Places

variable {advance : Thread → Place → ((request : Call) × Answer request) →
  Place}
variable {initial : Place} {kind other : Place → Bool}
variable {events : List (Event Thread Call Answer)}
variable {event : Event Thread Call Answer} {thread : Thread}

theorem place_append : place advance initial (events ++ [event]) thread =
    if event.thread = thread then
      advance thread (place advance initial events thread)
        ⟨event.request, event.answer⟩
    else place advance initial events thread := by
  rw [place, historyOf_append]
  by_cases own : event.thread = thread
  · rw [if_pos own, if_pos own, List.foldl_append]
    rfl
  · rw [if_neg own, if_neg own]
    rfl

theorem place_of_absent
    (absent : thread ∉ events.map Event.thread) :
    place advance initial events thread = initial := by
  have silent : historyOf thread events = [] := by
    rw [historyOf, List.map_eq_nil_iff, List.filter_eq_nil_iff]
    intro event member own
    exact absent (List.mem_map.mpr ⟨event, member, by simpa using own⟩)
  rw [place, silent]
  rfl

theorem mem_standing (outside : kind initial = false) :
    thread ∈ standing advance initial kind events ↔
      kind (place advance initial events thread) = true := by
  rw [standing, Finset.mem_filter, List.mem_toFinset]
  constructor
  · exact fun both => both.2
  · intro inside
    refine ⟨?_, inside⟩
    by_contra absent
    rw [place_of_absent absent, outside] at inside
    cases inside

theorem standing_append (outside : kind initial = false) :
    standing advance initial kind (events ++ [event]) =
      if kind (advance event.thread
          (place advance initial events event.thread)
          ⟨event.request, event.answer⟩) = true then
        insert event.thread (standing advance initial kind events)
      else (standing advance initial kind events).erase event.thread := by
  ext thread
  rw [mem_standing outside, place_append]
  by_cases own : event.thread = thread
  · subst own
    rw [if_pos rfl]
    split
    · rename_i here
      simp [here]
    · rename_i here
      simp [here]
  · rw [if_neg own, ← mem_standing outside]
    split
    · simp [Ne.symm own]
    · simp [Ne.symm own]

/-- The threads that are counted, before and after a call. -/
theorem card_standing_append (outside : kind initial = false) :
    (standing advance initial kind (events ++ [event])).card +
        (kind (place advance initial events event.thread)).toNat =
      (standing advance initial kind events).card +
        (kind (advance event.thread
          (place advance initial events event.thread)
          ⟨event.request, event.answer⟩)).toNat := by
  have member : event.thread ∈ standing advance initial kind events ↔
      kind (place advance initial events event.thread) = true :=
    mem_standing outside
  rw [standing_append outside]
  split
  · rename_i here
    rw [here]
    cases before : kind (place advance initial events event.thread) with
    | true =>
      rw [Finset.insert_eq_of_mem (member.mpr before)]
    | false =>
      rw [Finset.card_insert_of_notMem
        (fun inside => by rw [member.mp inside] at before; cases before)]
      rfl
  · rename_i here
    rw [Bool.not_eq_true] at here
    rw [here]
    cases before : kind (place advance initial events event.thread) with
    | true =>
      exact Finset.card_erase_add_one (member.mpr before)
    | false =>
      rw [Finset.erase_eq_of_notMem
        (fun inside => by rw [member.mp inside] at before; cases before)]

theorem card_standing_le {wider : Place → Bool}
    (outside : kind initial = false) (outsideOther : other initial = false)
    (outsideWider : wider initial = false)
    (covered : ∀ place, kind place = true →
      other place = true ∨ wider place = true) :
    (standing advance initial kind events).card ≤
      (standing advance initial other events).card +
        (standing advance initial wider events).card := by
  refine le_trans (Finset.card_le_card ?_) (Finset.card_union_le _ _)
  intro thread member
  rw [Finset.mem_union, mem_standing outsideOther, mem_standing outsideWider]
  exact covered _ ((mem_standing outside).mp member)

end Process
