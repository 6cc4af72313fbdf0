import Sharerr.Config.Frame

/-!
# What a list of edits touches

A later edit can bring back what an earlier one lost, and can write through
what an earlier one wrote.  So what a list touches is told from the list as a
whole: from the last edit at a path or below it, and from the tables the
document has on the way to the edited paths.
-/

namespace Sharerr

namespace Config

def Setting.writes (setting : Setting) : Bool := setting.value.isSome

/-- No edit is at the path or above it. -/
def Unnamed (edits : List Edit) (keys : List String) : Prop :=
  ∀ edit ∈ edits, ¬ edit.keys <+: keys

/-- Some edit is below the path. -/
def OnTheWay (edits : List Edit) (keys : List String) : Prop :=
  ∃ edit ∈ edits, Above keys edit.keys

/-- No edit is above the path. -/
def Highest (edits : List Edit) (keys : List String) : Prop :=
  ∀ edit ∈ edits, ¬ Above edit.keys keys

/-- The last edit at a path or below it. -/
@[simp] def lastThrough : List Edit → List String → Option Edit
  | [], _ => none
  | edit :: edits, keys =>
    (lastThrough edits keys).or
      (if keys <+: edit.keys then some edit else none)

/-- What the last edit at a path sets it to. -/
@[simp] def lastWritten : List Edit → List String → Option Setting
  | [], _ => none
  | edit :: edits, keys =>
    (lastWritten edits keys).or
      (if edit.keys = keys then some edit.value else none)

variable {edits : List Edit} {keys : List String} {last edit : Edit}
  {setting : Setting} {doc : Document}

theorem lastThrough_eq_none_iff :
    lastThrough edits keys = none ↔ ∀ edit ∈ edits, ¬ keys <+: edit.keys := by
  induction edits with
  | nil => simp [lastThrough]
  | cons edit edits ih => simp [lastThrough, ih, and_comm]

theorem lastThrough_eq_some (found : lastThrough edits keys = some last) :
    last ∈ edits ∧ keys <+: last.keys := by
  induction edits with
  | nil => cases found
  | cons edit edits ih =>
    rw [lastThrough, Option.or_eq_some_iff] at found
    rcases found with later | ⟨_, here⟩
    · obtain ⟨member, leads⟩ := ih later
      exact ⟨List.mem_cons_of_mem _ member, leads⟩
    · split at here
      case isTrue leads =>
        cases here
        exact ⟨List.mem_cons_self, leads⟩
      case isFalse => cases here

theorem exists_lastThrough {edits : List Edit} {edit : Edit}
    (member : edit ∈ edits) {keys : List String} (leads : keys <+: edit.keys) :
    ∃ last, lastThrough edits keys = some last := by
  apply Option.ne_none_iff_exists'.mp
  intro none_
  exact lastThrough_eq_none_iff.mp none_ edit member leads

theorem lastWritten_eq_none_iff :
    lastWritten edits keys = none ↔ ∀ edit ∈ edits, edit.keys ≠ keys := by
  induction edits with
  | nil => simp [lastWritten]
  | cons edit edits ih => simp [lastWritten, ih, and_comm]

theorem exists_lastWritten (member : edit ∈ edits) :
    ∃ setting, lastWritten edits edit.keys = some setting := by
  apply Option.ne_none_iff_exists'.mp
  intro none_
  exact lastWritten_eq_none_iff.mp none_ edit member rfl

theorem exists_of_lastWritten (last : lastWritten edits keys = some setting) :
    ∃ edit ∈ edits, edit.keys = keys := by
  by_contra none_
  rw [lastWritten_eq_none_iff.mpr fun edit member same =>
    none_ ⟨edit, member, same⟩] at last
  cases last

theorem lastWritten_of_lastThrough
    (found : lastThrough edits last.keys = some last) :
    lastWritten edits last.keys = some last.value := by
  induction edits with
  | nil => cases found
  | cons edit edits ih =>
    rw [lastThrough, Option.or_eq_some_iff] at found
    rcases found with later | ⟨none_, here⟩
    · rw [lastWritten, ih later, Option.some_or]
    · have none_ : lastWritten edits last.keys = none := by
        apply lastWritten_eq_none_iff.mpr
        intro other member same
        apply lastThrough_eq_none_iff.mp none_ other member
        exact same ▸ List.prefix_rfl
      split at here
      case isTrue =>
        cases here
        rw [lastWritten, none_, if_pos rfl, Option.none_or]
      case isFalse => cases here

theorem exists_highest (member : edit ∈ edits) :
    ∃ top ∈ edits, top.keys <+: edit.keys ∧ Highest edits top.keys := by
  induction size : edit.keys.length using Nat.strongRecOn
    generalizing edit with
  | _ length ih =>
    by_cases highest : Highest edits edit.keys
    · exact ⟨edit, member, List.prefix_rfl, highest⟩
    · simp only [Highest, not_forall, not_not] at highest
      obtain ⟨other, otherMember, above⟩ := highest
      have notLonger := above.1.length_le
      have other_ : other.keys.length ≠ edit.keys.length := fun same =>
        above.2 (above.1.eq_of_length same)
      have shorter : other.keys.length < length := by omega
      obtain ⟨top, topMember, leads, topHighest⟩ :=
        ih _ shorter otherMember rfl
      exact ⟨top, topMember, leads.trans above.1, topHighest⟩

theorem Unnamed.highest (unnamed : Unnamed edits keys) : Highest edits keys :=
  fun edit member above => unnamed edit member above.1

theorem Unnamed.beside (unnamed : Unnamed edits keys)
    (notOnTheWay : ¬ OnTheWay edits keys) :
    ∀ edit ∈ edits, Beside edit.keys keys := by
  intro edit member
  rcases beside_or_above (unnamed edit member) with beside | above
  · exact beside
  · exact absurd ⟨edit, member, above⟩ notOnTheWay

theorem Highest.tail (highest : Highest (edit :: edits) keys) :
    Highest edits keys :=
  fun other member => highest other (List.mem_cons_of_mem _ member)

theorem Highest.beside (highest : Highest edits keys)
    (none_ : lastThrough edits keys = none) :
    ∀ edit ∈ edits, Beside edit.keys keys := by
  intro edit member
  have notThrough := lastThrough_eq_none_iff.mp none_ edit member
  refine ⟨fun leads => ?_, notThrough⟩
  refine highest edit member ⟨leads, fun same => notThrough ?_⟩
  exact same ▸ List.prefix_rfl

theorem apply_cons (doc : Document) (edit : Edit) (edits : List Edit) :
    apply doc (edit :: edits) = apply (applyOne doc edit) edits :=
  rfl

theorem apply_concat (doc : Document) (earlier : List Edit) (edit : Edit) :
    apply doc (earlier ++ [edit]) = applyOne (apply doc earlier) edit :=
  List.foldl_concat ..

/-- Beside all edits a path keeps what it has when it shares only standard
tables with them. -/
theorem apply_beside (beside : ∀ edit ∈ edits, Beside edit.keys keys)
    (shared : ∀ edit ∈ edits, SharedStandard doc edit.keys keys) :
    look (apply doc edits) keys = look doc keys ∧
      ∀ others, SharedStandard (apply doc edits) others keys ↔
        SharedStandard doc others keys := by
  induction edits generalizing doc with
  | nil => exact ⟨rfl, fun _ => Iff.rfl⟩
  | cons edit edits ih =>
    have first := shared edit List.mem_cons_self
    have apart := beside edit List.mem_cons_self
    have kept : ∀ others, SharedStandard (applyOne doc edit) others keys ↔
        SharedStandard doc others keys := fun _ =>
      SharedStandard.applyAt_iff edit.value apart first
    obtain ⟨same, iff⟩ := ih
      (fun other member => beside other (List.mem_cons_of_mem _ member))
      (fun other member => (kept other.keys).mpr
        (shared other (List.mem_cons_of_mem _ member)))
    rw [apply_cons]
    constructor
    · exact same.trans (applyAt_beside edit.value apart first).1
    · exact fun others => (iff others).trans (kept others)

theorem apply_absent (beside : ∀ edit ∈ edits, Beside edit.keys keys)
    (absent : look doc keys = none) : look (apply doc edits) keys = none := by
  induction edits generalizing doc with
  | nil => exact absent
  | cons edit edits ih =>
    rw [apply_cons]
    apply ih fun other member => beside other (List.mem_cons_of_mem _ member)
    exact applyAt_absent edit.value (beside edit List.mem_cons_self) absent

/-- Beside all edits a path loses what it has when it shares another table with
one of them. -/
theorem apply_beside_lost (beside : ∀ edit ∈ edits, Beside edit.keys keys)
    (unshared : ∃ edit ∈ edits, ¬ SharedStandard doc edit.keys keys) :
    look (apply doc edits) keys = none := by
  induction edits generalizing doc with
  | nil =>
    obtain ⟨_, member, _⟩ := unshared
    cases member
  | cons edit edits ih =>
    have apart := beside edit List.mem_cons_self
    have besides : ∀ other ∈ edits, Beside other.keys keys :=
      fun other member => beside other (List.mem_cons_of_mem _ member)
    rw [apply_cons]
    by_cases first : SharedStandard doc edit.keys keys
    · apply ih besides
      obtain ⟨other, member, unshared⟩ := unshared
      rcases List.mem_cons.mp member with rfl | later
      · exact absurd first unshared
      · refine ⟨other, later, fun after => unshared ?_⟩
        exact (SharedStandard.applyAt_iff edit.value apart first).mp after
    · exact apply_absent besides (applyAt_beside_lost edit.value apart first)

theorem apply_standard_beside (beside : ∀ edit ∈ edits, Beside edit.keys keys)
    (isStandard : standard doc keys = true) :
    standard (apply doc edits) keys = true := by
  induction edits generalizing doc with
  | nil => exact isStandard
  | cons edit edits ih =>
    rw [apply_cons]
    apply ih fun other member => beside other (List.mem_cons_of_mem _ member)
    exact applyAt_standard edit.value (beside edit List.mem_cons_self)
      isStandard

/-- Where the last edit at a path or below it is below it, the path ends as a
standard table. -/
theorem apply_standard (highest : Highest edits keys)
    (found : lastThrough edits keys = some last) (above : Above keys last.keys)
    (doc : Document) : standard (apply doc edits) keys = true := by
  induction edits generalizing doc with
  | nil => cases found
  | cons edit edits ih =>
    rw [apply_cons]
    rw [lastThrough, Option.or_eq_some_iff] at found
    rcases found with later | ⟨none_, here⟩
    · exact ih highest.tail later (applyOne doc edit)
    · split at here
      case isTrue =>
        cases here
        apply apply_standard_beside (highest.tail.beside none_)
        exact standard_applyAt_above last.value above doc
      case isFalse => cases here

/-- Where the last edit at a path or below it is at it, the path ends as that
edit leaves it. -/
theorem apply_written (highest : Highest edits last.keys)
    (found : lastThrough edits last.keys = some last) (doc : Document)
    (below : List String) :
    look (apply doc edits) (last.keys ++ below) = last.value.seen below := by
  induction edits generalizing doc with
  | nil => cases found
  | cons edit edits ih =>
    rw [apply_cons]
    rw [lastThrough, Option.or_eq_some_iff] at found
    rcases found with later | ⟨none_, here⟩
    · exact ih highest.tail later (applyOne doc edit)
    · split at here
      case isFalse => cases here
      case isTrue =>
        cases here
        have toLast : last.keys <+: last.keys ++ below :=
          List.prefix_append _ _
        have beside := highest.tail.beside none_
        have besideBelow : ∀ other ∈ edits,
            Beside other.keys (last.keys ++ below) := by
          intro other member
          have apart := beside other member
          constructor
          · intro leads
            rcases List.prefix_or_prefix_of_prefix leads toLast with one | two
            · exact apart.notBelow one
            · exact apart.notAbove two
          · exact fun leads => apart.notAbove (toLast.trans leads)
        have shared : ∀ other ∈ edits,
            SharedStandard (applyOne doc last) other.keys
              (last.keys ++ below) := by
          intro other member way toOther toBelow
          have notThrough : ¬ last.keys <+: way := fun leads =>
            (beside other member).notAbove (leads.trans toOther)
          rcases List.prefix_or_prefix_of_prefix toBelow toLast with one | two
          · apply standard_applyAt_above last.value
            exact ⟨one, fun same => notThrough (same ▸ List.prefix_rfl)⟩
          · exact absurd two notThrough
        rw [(apply_beside besideBelow shared).1]
        exact look_applyAt_below last.value last.keys_ne_nil below doc

theorem OnTheWay.table (onTheWay : OnTheWay edits keys)
    (unnamed : Unnamed edits keys) (doc : Document) :
    look (apply doc edits) keys = some .table := by
  obtain ⟨edit, member, above⟩ := onTheWay
  obtain ⟨last, found⟩ := exists_lastThrough member above.1
  obtain ⟨lastMember, leads⟩ := lastThrough_eq_some found
  apply look_of_standard
  apply apply_standard unnamed.highest found
  refine ⟨leads, fun same => unnamed last lastMember ?_⟩
  exact same ▸ List.prefix_rfl

/-- What a change may do at a path: nothing, or put a table on the way to a
path that is written. -/
def Framed (before after : Document) (edits : List Edit)
    (keys : List String) : Prop :=
  look after keys = look before keys ∨
    look before keys = none ∧ look after keys = some .table ∧
      ∃ edit ∈ edits, edit.value.writes = true ∧ Above keys edit.keys

/-- A document that loses nothing beside what the edits name. -/
structure Gentle (doc : Document) (edits : List Edit) : Prop where
  /-- A value on the way to an edited path is named by another edit. -/
  noLeaf : ∀ way, Unnamed edits way → OnTheWay edits way →
    ∀ item, look doc way ≠ some (.leaf item)
  /-- A table on the way that is no standard one has no key in it but the named
  ones and those on the way to one. -/
  nothingBeside : ∀ edit ∈ edits, ∀ way, way <+: edit.keys →
    standard doc way = false → ∀ keys, way <+: keys → look doc keys ≠ none →
      Unnamed edits keys → OnTheWay edits keys
  /-- A table on the way to nothing but removals is there. -/
  wayThere : ∀ way, Unnamed edits way → OnTheWay edits way →
    (∀ edit ∈ edits, Above way edit.keys → edit.value.writes = false) →
      look doc way ≠ none

theorem Gentle.framed {doc : Document} {edits : List Edit}
    (gentle : Gentle doc edits) {keys : List String}
    (unnamed : Unnamed edits keys) :
    Framed doc (apply doc edits) edits keys := by
  by_cases onTheWay : OnTheWay edits keys
  · have table := onTheWay.table unnamed doc
    cases there : look doc keys with
    | some seen =>
      cases seen with
      | leaf item =>
        exact absurd there (gentle.noLeaf keys unnamed onTheWay item)
      | table => exact Or.inl (table.trans there.symm)
    | none =>
      refine Or.inr ⟨there, table, ?_⟩
      by_contra removes
      refine gentle.wayThere keys unnamed onTheWay ?_ there
      intro edit member above
      by_contra writes
      exact removes ⟨edit, member, by simpa using writes, above⟩
  · left
    have beside := unnamed.beside onTheWay
    by_cases shared : ∀ edit ∈ edits, SharedStandard doc edit.keys keys
    · exact (apply_beside beside shared).1
    · simp only [not_forall] at shared
      obtain ⟨edit, member, unshared⟩ := shared
      rw [apply_beside_lost beside ⟨edit, member, unshared⟩]
      obtain ⟨way, toEdit, toKeys, other⟩ := exists_of_not_shared unshared
      by_contra there
      exact onTheWay (gentle.nothingBeside edit member way toEdit other keys
        toKeys (Ne.symm there) unnamed)

theorem Gentle.of_framed
    (framed : ∀ keys, Unnamed edits keys →
      Framed doc (apply doc edits) edits keys) : Gentle doc edits where
  noLeaf := by
    intro way unnamed onTheWay item there
    rcases framed way unnamed with same | ⟨absent, _⟩
    · rw [onTheWay.table unnamed doc, there] at same
      cases same
    · rw [there] at absent
      cases absent
  nothingBeside := by
    intro edit member way toEdit other keys toKeys there unnamed
    by_contra onTheWay
    have lost : look (apply doc edits) keys = none := by
      apply apply_beside_lost (unnamed.beside onTheWay)
      refine ⟨edit, member, fun shared => ?_⟩
      rw [shared way toEdit toKeys] at other
      cases other
    rcases framed keys unnamed with same | ⟨absent, _⟩
    · exact there (same.symm.trans lost)
    · exact there absent
  wayThere := by
    intro way unnamed onTheWay removes absent
    rcases framed way unnamed with same | ⟨_, _, edit, member, writes, above⟩
    · rw [onTheWay.table unnamed doc, absent] at same
      cases same
    · rw [removes edit member above] at writes
      cases writes

/-- Edits that leave each edited path as its last edit has it.  A highest one is
edited after everything below it, and everything below it is removed last. -/
structure Settled (edits : List Edit) : Prop where
  highestLast : ∀ edit ∈ edits, Highest edits edit.keys →
    ∀ last, lastThrough edits edit.keys = some last → last.keys = edit.keys
  lowerRemoved : ∀ edit ∈ edits, ∀ other ∈ edits,
    Above edit.keys other.keys → lastWritten edits other.keys = some .unset

theorem Setting.seen_ne_table (setting : Setting) :
    setting.seen [] ≠ some .table := by
  cases setting <;> simp [Setting.seen, Setting.value]

theorem Setting.eq_unset (removed : setting.seen [] = none) :
    setting = .unset := by
  cases setting with
  | unset => rfl
  | _ => cases removed

theorem Setting.seen_cons (setting : Setting) (key : String)
    (keys : List String) : setting.seen (key :: keys) = none :=
  rfl

theorem Settled.written (settled : Settled edits) (member : edit ∈ edits) :
    ∃ last ∈ edits, last.keys <+: edit.keys ∧
      lastWritten edits last.keys = some last.value ∧
      ∀ doc below,
        look (apply doc edits) (last.keys ++ below) =
          last.value.seen below := by
  obtain ⟨top, topMember, leads, highest⟩ := exists_highest member
  obtain ⟨last, found⟩ := exists_lastThrough topMember List.prefix_rfl
  have same := settled.highestLast top topMember highest last found
  rw [← same] at found highest leads
  exact ⟨last, (lastThrough_eq_some found).1, leads,
    lastWritten_of_lastThrough found, apply_written highest found⟩

theorem Settled.holds (settled : Settled edits) (doc : Document)
    (written : lastWritten edits keys = some setting) :
    look (apply doc edits) keys = setting.seen [] := by
  obtain ⟨edit, member, rfl⟩ := exists_of_lastWritten written
  obtain ⟨last, lastMember, ⟨below, whole⟩, value, holds⟩ :=
    settled.written member
  have holds := holds doc below
  rw [whole] at holds
  cases below with
  | nil =>
    rw [List.append_nil] at whole
    rw [whole, written] at value
    cases value
    exact holds
  | cons key below =>
    have above : Above last.keys edit.keys := by
      refine ⟨⟨_, whole⟩, fun same => ?_⟩
      rw [same] at whole
      simp at whole
    rw [settled.lowerRemoved last lastMember edit member above] at written
    cases written
    exact holds

theorem Settled.of_holds
    (holds : ∀ keys setting, lastWritten edits keys = some setting →
      look (apply doc edits) keys = setting.seen []) : Settled edits := by
  have highestLast : ∀ edit ∈ edits, Highest edits edit.keys →
      ∀ last, lastThrough edits edit.keys = some last →
        last.keys = edit.keys := by
    intro edit member highest last found
    by_contra other
    obtain ⟨setting, written⟩ := exists_lastWritten member
    have above : Above edit.keys last.keys :=
      ⟨(lastThrough_eq_some found).2, Ne.symm other⟩
    have table := look_of_standard (apply_standard highest found above doc)
    rw [holds edit.keys setting written] at table
    exact setting.seen_ne_table table
  refine ⟨highestLast, ?_⟩
  intro edit member other otherMember above
  obtain ⟨top, topMember, leads, highest⟩ := exists_highest member
  obtain ⟨last, found⟩ := exists_lastThrough topMember List.prefix_rfl
  have same := highestLast top topMember highest last found
  rw [← same] at found highest leads
  obtain ⟨setting, written⟩ := exists_lastWritten otherMember
  have seen := holds other.keys setting written
  obtain ⟨below, whole⟩ := leads.trans above.1
  cases below with
  | nil =>
    -- then the highest path would be at the lower one
    rw [List.append_nil] at whole
    rw [whole] at leads
    exact absurd (above.1.eq_of_length_le leads.length_le) above.2
  | cons key below =>
    rw [← whole, apply_written highest found doc (key :: below),
      Setting.seen_cons] at seen
    rw [written, Setting.eq_unset seen.symm]

/-- Two documents that say the same at every path. -/
def Same (one other : Document) : Prop :=
  ∀ keys, look one keys = look other keys

structure TouchesOnly (doc : Document) (edits : List Edit) : Prop where
  frame : ∀ keys, Unnamed edits keys →
    Framed doc (apply doc edits) edits keys
  holds : ∀ keys setting, lastWritten edits keys = some setting →
    look (apply doc edits) keys = setting.seen []
  unset : ∀ earlier edit later, edits = earlier ++ edit :: later →
    edit.value = .unset → look (apply doc earlier) edit.keys = none →
      Same (apply doc (earlier ++ [edit])) (apply doc earlier)
  again : Same (apply (apply doc edits) edits) (apply doc edits)

theorem Settled.again (settled : Settled edits) (doc : Document) :
    Same (apply (apply doc edits) edits) (apply doc edits) := by
  intro keys
  by_cases unnamed : Unnamed edits keys
  · by_cases onTheWay : OnTheWay edits keys
    · rw [onTheWay.table unnamed, onTheWay.table unnamed]
    · have beside := unnamed.beside onTheWay
      by_cases shared : ∀ edit ∈ edits, SharedStandard doc edit.keys keys
      · have still := (apply_beside beside shared).2
        exact (apply_beside beside fun edit member =>
          (still edit.keys).mpr (shared edit member)).1
      · simp only [not_forall] at shared
        obtain ⟨edit, member, unshared⟩ := shared
        have lost := apply_beside_lost beside ⟨edit, member, unshared⟩
        rw [lost, apply_absent beside lost]
  · simp only [Unnamed, not_forall, not_not] at unnamed
    obtain ⟨edit, member, leads⟩ := unnamed
    obtain ⟨last, _, toEdit, _, holds⟩ := settled.written member
    obtain ⟨below, rfl⟩ := toEdit.trans leads
    rw [holds, holds]

/-- The removal of a path that is not there. -/
theorem unset_same_iff (removes : edit.value = .unset)
    (absent : look doc edit.keys = none) :
    Same (apply doc [edit]) doc ↔ Gentle doc [edit] := by
  constructor
  · intro same
    exact Gentle.of_framed fun keys _ => Or.inl (same keys)
  · intro gentle keys
    by_cases named : edit.keys <+: keys
    · obtain ⟨below, rfl⟩ := named
      rw [look_none_of_leads (List.prefix_append _ below) absent]
      refine (look_applyAt_below edit.value edit.keys_ne_nil below doc).trans ?_
      rw [removes]
      cases below <;> rfl
    · have unnamed : Unnamed [edit] keys := by
        intro other member
        rw [List.mem_singleton.mp member]
        exact named
      rcases gentle.framed unnamed with same | ⟨_, _, other, member, writes, _⟩
      · exact same
      · rw [List.mem_singleton.mp member, removes] at writes
        cases writes

/-- Edits and a document of which the edits touch only what they name. -/
structure Careful (doc : Document) (edits : List Edit) : Prop where
  gentle : Gentle doc edits
  settled : Settled edits
  /-- A removal of what is not there comes to a document that it leaves
  alone. -/
  unsets : ∀ earlier edit later, edits = earlier ++ edit :: later →
    edit.value = .unset → look (apply doc earlier) edit.keys = none →
      Gentle (apply doc earlier) [edit]

theorem touches_only_iff_careful (doc : Document) (edits : List Edit) :
    TouchesOnly doc edits ↔ Careful doc edits := by
  constructor
  · intro touches
    refine ⟨Gentle.of_framed touches.frame, Settled.of_holds touches.holds, ?_⟩
    intro earlier edit later whole removes absent
    rw [← unset_same_iff removes absent]
    have same := touches.unset earlier edit later whole removes absent
    rwa [apply_concat] at same
  · intro careful
    refine ⟨fun _ => careful.gentle.framed,
      fun _ _ => careful.settled.holds doc, ?_, careful.settled.again doc⟩
    intro earlier edit later whole removes absent
    rw [apply_concat]
    exact (unset_same_iff removes absent).mpr
      (careful.unsets earlier edit later whole removes absent)

theorem Gentle.of_standard
    (isStandard : ∀ edit ∈ edits, ∀ way, Above way edit.keys →
      standard doc way = true) : Gentle doc edits where
  noLeaf := by
    intro way _ onTheWay item there
    obtain ⟨edit, member, above⟩ := onTheWay
    rw [look_of_standard (isStandard edit member way above)] at there
    cases there
  nothingBeside := by
    intro edit member way toEdit other keys toKeys _ unnamed
    by_cases same : way = edit.keys
    · exact absurd (same ▸ toKeys) (unnamed edit member)
    · rw [isStandard edit member way ⟨toEdit, same⟩] at other
      cases other
  wayThere := by
    intro way _ onTheWay _ absent
    obtain ⟨edit, member, above⟩ := onTheWay
    rw [look_of_standard (isStandard edit member way above)] at absent
    cases absent

theorem apply_standard_above
    (notAbove : ∀ other ∈ edits, ¬ Above other.keys edit.keys)
    {way : List String} (above : Above way edit.keys)
    (isStandard : standard doc way = true) :
    standard (apply doc edits) way = true := by
  induction edits generalizing doc with
  | nil => exact isStandard
  | cons first edits ih =>
    rw [apply_cons]
    apply ih fun other member => notAbove other (List.mem_cons_of_mem _ member)
    have notBelow : ¬ first.keys <+: way := by
      intro leads
      refine notAbove first List.mem_cons_self ⟨leads.trans above.1, ?_⟩
      intro same
      rw [same] at leads
      exact above.2 (above.1.eq_of_length_le leads.length_le)
    rcases beside_or_above notBelow with beside | toFirst
    · exact applyAt_standard first.value beside isStandard
    · exact standard_applyAt_above first.value toFirst doc

/-- Where the tables on the way to every edited path are standard ones, and no
edit is above another, the edits touch what they name and nothing else. -/
theorem touches_only_of_standard {doc : Document} {edits : List Edit}
    (isStandard : ∀ edit ∈ edits, ∀ way, Above way edit.keys →
      standard doc way = true)
    (apart : ∀ edit ∈ edits, Highest edits edit.keys) :
    TouchesOnly doc edits := by
  have settled : Settled edits := by
    constructor
    · intro edit member _ last found
      obtain ⟨lastMember, leads⟩ := lastThrough_eq_some found
      by_contra other
      exact apart last lastMember edit member ⟨leads, Ne.symm other⟩
    · intro edit member other otherMember above
      exact absurd above (apart other otherMember edit member)
  refine ⟨fun _ => (Gentle.of_standard isStandard).framed,
    fun _ _ => settled.holds doc, ?_, settled.again doc⟩
  intro earlier edit later whole removes absent
  have member : edit ∈ edits := by simp [whole]
  rw [apply_concat]
  apply (unset_same_iff removes absent).mpr
  apply Gentle.of_standard
  intro other otherMember way above
  rw [List.mem_singleton.mp otherMember] at above
  apply apply_standard_above _ above (isStandard edit member way above)
  intro first firstMember
  exact apart edit member first (by simp [whole, firstMember])

/-- The line
`qbittorrent = { url = "http://qbit:8080", category = "shared" }`. -/
def inlineQbit : Document :=
  [("qbittorrent", .value (.inlineTable
    [("url", .string "http://qbit:8080"), ("category", .string "shared")]))]

def newUrl : Edit := ⟨"qbittorrent.url", .str "http://nas:8080"⟩

def noPort : Edit := ⟨"tracker.port", .unset⟩

/-- A new address for a service written inline drops the other keys of the
service, and the removal of a port from an empty document leaves a table
there. -/
theorem inline_sibling_dropped :
    (look inlineQbit ["qbittorrent", "category"] =
        some (.leaf (.value (.string "shared"))) ∧
      look (apply inlineQbit [newUrl]) ["qbittorrent", "category"] = none ∧
      ¬ TouchesOnly inlineQbit [newUrl]) ∧
    look (apply [] [noPort]) ["tracker"] = some .table ∧
      ¬ TouchesOnly [] [noPort] := by
  have urlKeys : newUrl.keys = ["qbittorrent", "url"] := by decide +kernel
  have portKeys : noPort.keys = ["tracker", "port"] := by decide +kernel
  have dropped :
      look (apply inlineQbit [newUrl]) ["qbittorrent", "category"] = none := by
    decide +kernel
  have leftTable : look (apply [] [noPort]) ["tracker"] = some .table := by
    change look (applyAt noPort.value noPort.keys []) ["tracker"] = _
    rw [portKeys]
    rfl
  refine ⟨⟨rfl, dropped, ?_⟩, leftTable, ?_⟩
  · intro touches
    have unnamed : Unnamed [newUrl] ["qbittorrent", "category"] := by
      simp [Unnamed, urlKeys]
    rcases touches.frame _ unnamed with same | ⟨absent, _⟩
    · rw [dropped] at same
      cases same
    · cases absent
  · intro touches
    have absent : look (apply [] []) noPort.keys = none := by
      rw [portKeys]
      rfl
    have same := touches.unset [] noPort [] rfl rfl absent ["tracker"]
    rw [List.nil_append, leftTable] at same
    cases same

/-- The same service under a header of its own. -/
def tableQbit : Document :=
  [("qbittorrent", .table [("url", .value (.string "http://qbit:8080")),
    ("category", .value (.string "shared"))])]

def noCategory : Edit := ⟨"qbittorrent.category", .unset⟩

theorem new_url_touches_only : TouchesOnly tableQbit [newUrl, noCategory] := by
  have urlKeys : newUrl.keys = ["qbittorrent", "url"] := by decide +kernel
  have categoryKeys : noCategory.keys = ["qbittorrent", "category"] := by
    decide +kernel
  have isTable : standard tableQbit ["qbittorrent"] = true := by decide +kernel
  have onTheWay : ∀ last way, Above way ["qbittorrent", last] →
      way = [] ∨ way = ["qbittorrent"] := by
    rintro last way ⟨leads, notAll⟩
    rcases List.prefix_cons_iff.mp leads with rfl | ⟨rest, rfl, within⟩
    · exact .inl rfl
    rcases List.prefix_cons_iff.mp within with rfl | ⟨rest, rfl, nothing⟩
    · exact .inr rfl
    · exact absurd (by rw [List.prefix_nil.mp nothing]) notAll
  have levels : ∀ edit ∈ [newUrl, noCategory],
      ∃ last, edit.keys = ["qbittorrent", last] := by
    simp [urlKeys, categoryKeys]
  apply touches_only_of_standard
  · intro edit member way above
    obtain ⟨last, keys⟩ := levels edit member
    rw [keys] at above
    rcases onTheWay last way above with rfl | rfl
    · rfl
    · exact isTable
  · intro edit member other among above
    obtain ⟨last, keys⟩ := levels edit member
    obtain ⟨lower, others⟩ := levels other among
    rw [keys, others] at above
    rcases onTheWay _ _ above with same | same <;> cases same

end Config

end Sharerr
