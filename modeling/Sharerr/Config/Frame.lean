import Sharerr.Config.Edits

/-!
# What one edit leaves alone

The walk of an edit rebuilds every table on its way.  Below the edited path
there is what was written; above it there are standard tables; and beside it a
path keeps what it had, as long as the tables it shares with the edited path
were standard ones.
-/

namespace Sharerr

namespace Config

open Rust (IndexMap)

theorem look_cons (doc : Document) (key : String) (keys : List String) :
    look doc (key :: keys) =
      (IndexMap.get doc key).bind fun inner => inner.lookup keys :=
  rfl

theorem standard_cons (doc : Document) (key : String) (keys : List String) :
    standard doc (key :: keys) =
      (IndexMap.get doc key).any fun inner => inner.standard keys :=
  rfl

/-- Neither path leads to or through the other. -/
structure Beside (keys others : List String) : Prop where
  notBelow : ¬ keys <+: others
  notAbove : ¬ others <+: keys

variable {key : String} {keys others way edited : List String} {doc : Document}

theorem Beside.cons (beside : Beside (key :: keys) (key :: others)) :
    Beside keys others where
  notBelow := fun below =>
    beside.notBelow (List.cons_prefix_cons.mpr ⟨rfl, below⟩)
  notAbove := fun above =>
    beside.notAbove (List.cons_prefix_cons.mpr ⟨rfl, above⟩)

/-- A path that leads further, and not to the same place. -/
def Above (keys others : List String) : Prop :=
  keys <+: others ∧ keys ≠ others

theorem Above.cons {other : String}
    (above : Above (key :: keys) (other :: others)) :
    key = other ∧ Above keys others := by
  obtain ⟨same, leads⟩ := List.cons_prefix_cons.mp above.1
  subst same
  exact ⟨rfl, leads, fun same => above.2 (same ▸ rfl)⟩

theorem Above.ne_nil (above : Above keys others) :
    others ≠ [] := by
  intro empty
  subst empty
  exact above.2 (List.prefix_nil.mp above.1)

/-- On the way to what is written there are standard tables. -/
theorem standard_applyAt_above (setting : Setting) (above : Above others keys)
    (doc : Document) :
    standard (applyAt setting keys doc) others = true := by
  induction keys generalizing others doc with
  | nil => exact absurd rfl above.ne_nil
  | cons key keys ih =>
    cases others with
    | nil => rfl
    | cons other others =>
      obtain ⟨same, further⟩ := above.cons
      subst same
      cases keys with
      | nil => exact absurd rfl further.ne_nil
      | cons next keys =>
        rw [applyAt, standard_cons, IndexMap.get_insert, if_pos rfl]
        exact ih further (within doc other)

theorem look_of_standard (isStandard : standard doc keys = true) :
    look doc keys = some .table := by
  induction keys generalizing doc with
  | nil => rfl
  | cons key keys ih =>
    rw [standard_cons, Option.any_eq_true] at isStandard
    obtain ⟨inner, there, isStandard⟩ := isStandard
    rw [look_cons, there, Option.bind_some]
    cases inner with
    | table entries => exact ih isStandard
    | value value => cases keys <;> cases isStandard
    | arrayOfTables tables => cases keys <;> cases isStandard

/-- What a setting puts at its path, and at the paths below. -/
def Setting.seen (setting : Setting) : List String → Option Seen
  | [] => setting.value.map fun value => .leaf (.value value)
  | _ :: _ => none

theorem lookup_written {setting : Setting} {value : Value}
    (writes : setting.value = some value) (below : List String) :
    (Item.value value).lookup below = setting.seen below := by
  cases setting <;> cases writes <;> cases below <;> rfl

theorem look_applyAt_below (setting : Setting) (some_ : keys ≠ [])
    (below : List String) (doc : Document) :
    look (applyAt setting keys doc) (keys ++ below) = setting.seen below := by
  induction keys generalizing doc with
  | nil => exact absurd rfl some_
  | cons key keys ih =>
    cases keys with
    | nil =>
      rw [applyAt, List.singleton_append, look_cons]
      cases writes : setting.value with
      | some value =>
        simp only [IndexMap.get_insert, if_true, Option.bind_some]
        exact lookup_written writes below
      | none =>
        simp only [IndexMap.get_remove, if_true, Option.bind_none]
        cases below with
        | nil => simp [Setting.seen, writes]
        | cons => rfl
    | cons next keys =>
      rw [applyAt, List.cons_append, look_cons, IndexMap.get_insert,
        if_pos rfl]
      exact ih (List.cons_ne_nil next keys) (within doc key)

theorem within_of_table {entries : IndexMap Item}
    (there : IndexMap.get doc key = some (.table entries)) :
    within doc key = entries := by
  rw [within, there]

theorem within_of_not_table
    (none_ : ∀ entries, IndexMap.get doc key ≠ some (.table entries)) :
    within doc key = [] := by
  rw [within]
  split
  case h_1 entries there => exact absurd there (none_ entries)
  case h_2 => rfl

/-- Whether the tables two paths share are all standard ones. -/
def SharedStandard (doc : Document) (keys others : List String) : Prop :=
  ∀ shared, shared <+: keys → shared <+: others → standard doc shared = true

theorem SharedStandard.descend
    (shared : SharedStandard doc (key :: keys) (key :: others)) :
    IndexMap.get doc key = some (.table (within doc key)) ∧
      SharedStandard (within doc key) keys others := by
  have first := shared [key] (by simp) (by simp)
  rw [standard_cons, Option.any_eq_true] at first
  obtain ⟨inner, there, isTable⟩ := first
  cases inner with
  | value value => cases isTable
  | arrayOfTables tables => cases isTable
  | table entries =>
    rw [within_of_table there]
    refine ⟨there, ?_⟩
    intro further toKeys toOthers
    have next := shared (key :: further)
      (List.cons_prefix_cons.mpr ⟨rfl, toKeys⟩)
      (List.cons_prefix_cons.mpr ⟨rfl, toOthers⟩)
    rw [standard_cons, there] at next
    exact next

theorem SharedStandard.of_within
    (shared : SharedStandard (within doc key) keys others)
    {entries : IndexMap Item}
    (there : IndexMap.get doc key = some (.table entries)) :
    SharedStandard doc (key :: keys) (key :: others) := by
  rw [within_of_table there] at shared
  intro further toKeys toOthers
  cases further with
  | nil => rfl
  | cons first further =>
    obtain ⟨same, leads⟩ := List.cons_prefix_cons.mp toKeys
    subst same
    rw [standard_cons, there]
    exact shared further leads (List.cons_prefix_cons.mp toOthers).2

/-- Beside the path everything stays that is reached through standard
tables. -/
theorem applyAt_beside (setting : Setting) (beside : Beside keys others)
    (shared : SharedStandard doc keys others) :
    look (applyAt setting keys doc) others = look doc others ∧
      standard (applyAt setting keys doc) others = standard doc others := by
  induction keys generalizing others doc with
  | nil => exact absurd List.nil_prefix beside.notBelow
  | cons key keys ih =>
    cases others with
    | nil => exact absurd List.nil_prefix beside.notAbove
    | cons other others =>
      simp only [look_cons, standard_cons]
      by_cases same : other = key
      · subst same
        cases keys with
        | nil =>
          exact absurd (List.cons_prefix_cons.mpr ⟨rfl, List.nil_prefix⟩)
            beside.notBelow
        | cons next keys =>
          obtain ⟨there, shared⟩ := shared.descend
          rw [applyAt, IndexMap.get_insert, if_pos rfl, there]
          exact ih beside.cons shared
      · cases keys with
        | nil =>
          rw [applyAt]
          cases setting.value with
          | some value =>
            rw [IndexMap.get_insert, if_neg same]
            exact ⟨rfl, rfl⟩
          | none =>
            rw [IndexMap.get_remove, if_neg same]
            exact ⟨rfl, rfl⟩
        | cons next keys =>
          rw [applyAt, IndexMap.get_insert, if_neg same]
          exact ⟨rfl, rfl⟩

/-- Beside the path nothing stays that was reached through something else. -/
theorem applyAt_beside_lost (setting : Setting) (beside : Beside keys others)
    (unshared : ¬ SharedStandard doc keys others) :
    look (applyAt setting keys doc) others = none := by
  induction keys generalizing others doc with
  | nil => exact absurd List.nil_prefix beside.notBelow
  | cons key keys ih =>
    cases others with
    | nil => exact absurd List.nil_prefix beside.notAbove
    | cons other others =>
      by_cases same : other = key
      · subst same
        cases keys with
        | nil =>
          exact absurd (List.cons_prefix_cons.mpr ⟨rfl, List.nil_prefix⟩)
            beside.notBelow
        | cons next keys =>
          rw [applyAt, look_cons, IndexMap.get_insert, if_pos rfl]
          change look (applyAt setting (next :: keys) (within doc other))
            others = none
          by_cases shared :
            SharedStandard (within doc other) (next :: keys) others
          · -- then the walk went on in a table that was not there
            rw [(applyAt_beside setting beside.cons shared).1,
              within_of_not_table fun entries there =>
                unshared (shared.of_within there)]
            cases others with
            | nil => exact absurd List.nil_prefix beside.cons.notAbove
            | cons first others => rfl
          · exact ih beside.cons shared
      · exfalso
        apply unshared
        intro shared toKeys toOthers
        cases shared with
        | nil => rfl
        | cons first shared =>
          have one := (List.cons_prefix_cons.mp toKeys).1
          have two := (List.cons_prefix_cons.mp toOthers).1
          exact absurd (two.symm.trans one) same

theorem exists_of_not_shared (unshared : ¬ SharedStandard doc keys others) :
    ∃ way, way <+: keys ∧ way <+: others ∧ standard doc way = false := by
  by_contra none_
  apply unshared
  intro way toKeys toOthers
  by_contra other
  exact none_ ⟨way, toKeys, toOthers, by simpa using other⟩

theorem Item.standard_of_leads {item : Item} (leads : way <+: keys)
    (isStandard : item.standard keys = true) :
    item.standard way = true := by
  induction way generalizing item keys with
  | nil =>
    cases item with
    | table entries => rfl
    | value value => cases keys <;> cases isStandard
    | arrayOfTables tables => cases keys <;> cases isStandard
  | cons key way ih =>
    cases keys with
    | nil => cases List.prefix_nil.mp leads
    | cons other keys =>
      obtain ⟨same, further⟩ := List.cons_prefix_cons.mp leads
      subst same
      cases item with
      | value value => cases isStandard
      | arrayOfTables tables => cases isStandard
      | table entries =>
        rw [Item.standard, Option.any_eq_true] at isStandard ⊢
        obtain ⟨inner, there, isStandard⟩ := isStandard
        exact ⟨inner, there, ih further isStandard⟩

theorem Item.lookup_none_of_leads {item : Item} (leads : way <+: keys)
    (absent : item.lookup way = none) :
    item.lookup keys = none := by
  induction way generalizing item keys with
  | nil => cases absent
  | cons key way ih =>
    cases keys with
    | nil => cases List.prefix_nil.mp leads
    | cons other keys =>
      obtain ⟨same, further⟩ := List.cons_prefix_cons.mp leads
      subst same
      rw [Item.lookup] at absent ⊢
      cases there : item.entry key with
      | none => rfl
      | some inner =>
        rw [there, Option.bind_some] at absent
        exact ih further absent

theorem standard_of_leads (leads : way <+: keys)
    (isStandard : standard doc keys = true) :
    standard doc way = true :=
  Item.standard_of_leads leads isStandard

theorem look_none_of_leads {doc : Document} {way keys : List String}
    (leads : way <+: keys) (absent : look doc way = none) :
    look doc keys = none :=
  Item.lookup_none_of_leads leads absent

theorem beside_or_above (notBelow : ¬ keys <+: others) :
    Beside keys others ∨ Above others keys := by
  by_cases above : others <+: keys
  · refine Or.inr ⟨above, fun same => notBelow ?_⟩
    exact same ▸ List.prefix_rfl
  · exact Or.inl ⟨notBelow, above⟩

/-- An edit beside two paths keeps how far they lead together through standard
tables. -/
theorem SharedStandard.applyAt_iff (setting : Setting)
    (beside : Beside edited keys) (shared : SharedStandard doc edited keys) :
    SharedStandard (applyAt setting edited doc) others keys ↔
      SharedStandard doc others keys := by
  -- a table they share is above the edited path, or beside it
  have same : ∀ way, way <+: keys →
      standard (applyAt setting edited doc) way = standard doc way := by
    intro way toKeys
    have notBelow : ¬ edited <+: way := fun leads =>
      beside.notBelow (leads.trans toKeys)
    rcases beside_or_above notBelow with apart | above
    · exact (applyAt_beside setting apart fun further toEdited toWay =>
        shared further toEdited (toWay.trans toKeys)).2
    · rw [standard_applyAt_above setting above,
        shared way above.1 toKeys]
  constructor
  · intro after way toOthers toKeys
    rw [← same way toKeys]
    exact after way toOthers toKeys
  · intro before way toOthers toKeys
    rw [same way toKeys]
    exact before way toOthers toKeys

theorem applyAt_standard (setting : Setting) (beside : Beside edited keys)
    (isStandard : standard doc keys = true) :
    standard (applyAt setting edited doc) keys = true := by
  rw [(applyAt_beside setting beside fun way _ toKeys =>
    standard_of_leads toKeys isStandard).2]
  exact isStandard

theorem applyAt_absent (setting : Setting) (beside : Beside edited keys)
    (absent : look doc keys = none) :
    look (applyAt setting edited doc) keys = none := by
  by_cases shared : SharedStandard doc edited keys
  · rw [(applyAt_beside setting beside shared).1, absent]
  · exact applyAt_beside_lost setting beside shared

end Config

end Sharerr
