import Mathlib.Data.List.Nodup
import Sharerr.Rust.MaxByKey
import Sharerr.Rust.PathBuf

/-!
# The views of a file

A path the *arr apps report is translated into the view of this process and the
view of the torrent client; one that was scanned here into the client's alone.
Either way one rule is taken, the one with the most specific prefix.
-/

namespace Sharerr

namespace Paths

open Rust (PathBuf maxByKey IsLastMax)

structure PathMapping where
  arr : PathBuf
  sharerr : PathBuf
  qbit : Option PathBuf
deriving DecidableEq

inductive PathError where
  | notAbsolute (path : PathBuf)
deriving DecidableEq

structure ResolvedPaths where
  arr : PathBuf
  sharerr : PathBuf
  qbit : PathBuf
  mappingApplied : Bool
deriving DecidableEq

/-- A rule with a matching prefix: how specific it is, and what is left of the
path. -/
abbrev Candidate := Nat × PathMapping × PathBuf

def candidate (prefixOf : PathMapping → PathBuf) (path : PathBuf)
    (map : PathMapping) : Option Candidate :=
  (path.stripPrefix (prefixOf map)).map fun rest =>
    ((prefixOf map).components.length, map, rest)

def mostSpecificMatch (maps : List PathMapping)
    (prefixOf : PathMapping → PathBuf) (path : PathBuf) :
    Option (PathMapping × PathBuf) :=
  (maxByKey (fun found : Candidate => found.1)
    (maps.filterMap (candidate prefixOf path))).map fun found => found.2

/-- A path no rule covers is the same everywhere. -/
def resolve (maps : List PathMapping) (arrPath : PathBuf) :
    Except PathError ResolvedPaths :=
  if arrPath.isAbsolute = false then .error (.notAbsolute arrPath)
  else
    match mostSpecificMatch maps PathMapping.arr arrPath with
    | some (map, rest) =>
      .ok
        { arr := arrPath
          sharerr := map.sharerr.join rest
          qbit := (map.qbit.getD map.sharerr).join rest
          mappingApplied := true }
    | none =>
      .ok
        { arr := arrPath
          sharerr := arrPath
          qbit := arrPath
          mappingApplied := false }

/-- A path of our own, led to the client by the rule that covers it here. -/
def resolveSharerr (maps : List PathMapping) (path : PathBuf) :
    Except PathError ResolvedPaths :=
  if path.isAbsolute = false then .error (.notAbsolute path)
  else
    let mapped := (mostSpecificMatch maps PathMapping.sharerr path).bind
      fun found => found.1.qbit.map fun base => base.join found.2
    .ok
      { arr := path
        sharerr := path
        qbit := mapped.getD path
        mappingApplied := mapped.isSome }

/-- A rule with what its prefix leaves of the path. -/
structure Matches (prefixOf : PathMapping → PathBuf) (path : PathBuf)
    (map : PathMapping) (rest : PathBuf) : Prop where
  whole : path.components = (prefixOf map).components ++ rest.components

def specificity (prefixOf : PathMapping → PathBuf) (map : PathMapping) : Nat :=
  (prefixOf map).components.length

/-- Of the rules whose prefix is in front of the path, one with the longest, and
of several as long the last. -/
def Selects (maps : List PathMapping) (prefixOf : PathMapping → PathBuf)
    (path : PathBuf) (map : PathMapping) (rest : PathBuf) : Prop :=
  Matches prefixOf path map rest ∧
    ∃ before after, maps = before ++ map :: after ∧
      (∀ other ∈ before, ∀ left, Matches prefixOf path other left →
        specificity prefixOf other ≤ specificity prefixOf map) ∧
      ∀ other ∈ after, ∀ left, Matches prefixOf path other left →
        specificity prefixOf other < specificity prefixOf map

section Selected

variable {maps : List PathMapping} {prefixOf : PathMapping → PathBuf}
  {path rest : PathBuf} {map : PathMapping}

theorem candidate_eq_some {found : Candidate} :
    candidate prefixOf path map = some found ↔
      Matches prefixOf path map found.2.2 ∧
        found = (specificity prefixOf map, map, found.2.2) := by
  rw [candidate, Option.map_eq_some_iff]
  constructor
  · intro made
    obtain ⟨rest, stripped, rfl⟩ := made
    exact ⟨⟨PathBuf.stripPrefix_eq_some.mp stripped⟩, rfl⟩
  · intro made
    obtain ⟨matched, same⟩ := made
    exact ⟨found.2.2, PathBuf.stripPrefix_eq_some.mpr matched.whole,
      same.symm⟩

theorem candidate_of_matches (matched : Matches prefixOf path map rest) :
    candidate prefixOf path map =
      some (specificity prefixOf map, map, rest) :=
  candidate_eq_some.mpr ⟨matched, rfl⟩

theorem mostSpecificMatch_eq_some :
    mostSpecificMatch maps prefixOf path = some (map, rest) ↔
      Selects maps prefixOf path map rest := by
  rw [mostSpecificMatch, Option.map_eq_some_iff]
  constructor
  · intro found
    obtain ⟨⟨specific, _, _⟩, last, same⟩ := found
    cases same
    obtain ⟨front, back, shape, less, greater⟩ :=
      Rust.maxByKey_eq_some.mp last
    obtain ⟨before, tail, rfl, front_, shape⟩ :=
      List.filterMap_eq_append_iff.mp shape
    obtain ⟨skipped, mine, after, rfl, none_, here, back_⟩ :=
      List.filterMap_eq_cons_iff.mp shape
    obtain ⟨matched, same⟩ := candidate_eq_some.mp here
    cases same
    refine ⟨matched, before ++ skipped, after, by simp, ?_, ?_⟩
    · intro other member left matched_
      have made := candidate_of_matches matched_
      rcases List.mem_append.mp member with old | passed
      · exact less _ (front_ ▸ List.mem_filterMap.mpr ⟨other, old, made⟩)
      · rw [none_ other passed] at made
        cases made
    · intro other member left matched_
      exact greater _ (back_ ▸ List.mem_filterMap.mpr
        ⟨other, member, candidate_of_matches matched_⟩)
  · intro selected
    obtain ⟨matched, before, after, rfl, less, greater⟩ := selected
    refine ⟨(specificity prefixOf map, map, rest),
      Rust.maxByKey_eq_some.mpr ⟨before.filterMap (candidate prefixOf path),
        after.filterMap (candidate prefixOf path), ?_, ?_, ?_⟩, rfl⟩
    · rw [List.filterMap_append, List.filterMap_cons,
        candidate_of_matches matched]
    · intro found member
      obtain ⟨other, old, made⟩ := List.mem_filterMap.mp member
      obtain ⟨matched_, same⟩ := candidate_eq_some.mp made
      rw [same]
      exact less other old _ matched_
    · intro found member
      obtain ⟨other, old, made⟩ := List.mem_filterMap.mp member
      obtain ⟨matched_, same⟩ := candidate_eq_some.mp made
      rw [same]
      exact greater other old _ matched_

theorem mostSpecificMatch_eq_none :
    mostSpecificMatch maps prefixOf path = none ↔
      ∀ map ∈ maps, ∀ rest, ¬ Matches prefixOf path map rest := by
  rw [mostSpecificMatch, Option.map_eq_none_iff, Rust.maxByKey_eq_none,
    List.filterMap_eq_nil_iff]
  constructor
  · intro none_ map member rest matched
    exact absurd ((candidate_of_matches matched).symm.trans
      (none_ map member)) (Option.some_ne_none _)
  · intro none_ map member
    cases made : candidate prefixOf path map with
    | none => rfl
    | some found =>
      exact absurd (candidate_eq_some.mp made).1 (none_ map member _)

theorem exists_selects (member : map ∈ maps)
    (matched : Matches prefixOf path map rest) :
    ∃ other left, Selects maps prefixOf path other left := by
  cases found : mostSpecificMatch maps prefixOf path with
  | none =>
    exact absurd matched (mostSpecificMatch_eq_none.mp found map member rest)
  | some taken => exact ⟨_, _, mostSpecificMatch_eq_some.mp found⟩

theorem Selects.specificity_le {other : PathMapping} {left : PathBuf}
    (selected : Selects maps prefixOf path map rest) (member : other ∈ maps)
    (matched : Matches prefixOf path other left) :
    specificity prefixOf other ≤ specificity prefixOf map := by
  obtain ⟨-, before, after, rfl, less, greater⟩ := selected
  rcases List.mem_append.mp member with old | later
  · exact less other old left matched
  · rcases List.mem_cons.mp later with same | later
    · rw [same]
    · exact Nat.le_of_lt (greater other later left matched)

theorem Selects.unique {other : PathMapping} {left : PathBuf}
    (one : Selects maps prefixOf path map rest)
    (two : Selects maps prefixOf path other left) :
    map = other ∧ rest = left := by
  have same := (mostSpecificMatch_eq_some.mpr one).symm.trans
    (mostSpecificMatch_eq_some.mpr two)
  cases same
  exact ⟨rfl, rfl⟩

theorem selects_iff_of_nodup (different : (maps.map prefixOf).Nodup) :
    Selects maps prefixOf path map rest ↔
      Matches prefixOf path map rest ∧ map ∈ maps ∧
        ∀ other ∈ maps, ∀ left, Matches prefixOf path other left →
          specificity prefixOf other ≤ specificity prefixOf map := by
  constructor
  · intro selected
    obtain ⟨matched, before, after, rfl, -⟩ := id selected
    exact ⟨matched, by simp, fun other member left matched_ =>
      selected.specificity_le member matched_⟩
  · intro longest
    obtain ⟨matched, member, most⟩ := longest
    obtain ⟨before, after, rfl⟩ := List.append_of_mem member
    refine ⟨matched, before, after, rfl, fun other old left matched_ =>
      most other (List.mem_append_left _ old) left matched_,
      fun other later left matched_ => ?_⟩
    have below := most other (by simp [later]) left matched_
    refine Nat.lt_of_le_of_ne below fun level => ?_
    have together := matched.whole.symm.trans matched_.whole
    have same : prefixOf map = prefixOf other :=
      PathBuf.ext (List.append_inj_left together level.symm)
    rw [List.map_append, List.map_cons, List.nodup_append] at different
    obtain ⟨-, once, -⟩ := different
    exact (List.nodup_cons.mp once).1
      (List.mem_map.mpr ⟨other, later, same.symm⟩)

/-- So the order they are configured in does not count. -/
theorem mostSpecificMatch_perm {others : List PathMapping}
    (perm : maps.Perm others) (different : (maps.map prefixOf).Nodup)
    (path : PathBuf) : mostSpecificMatch others prefixOf path =
      mostSpecificMatch maps prefixOf path := by
  have different_ := (perm.map prefixOf).nodup_iff.mp different
  refine Option.ext fun found => ?_
  obtain ⟨map, rest⟩ := found
  simp only [mostSpecificMatch_eq_some,
    selects_iff_of_nodup different, selects_iff_of_nodup different_,
    perm.mem_iff]

end Selected

/-- The prefix the client is told. -/
def PathMapping.client (map : PathMapping) : PathBuf :=
  map.qbit.getD map.sharerr

/-- The rule taken for the view of this process has the prefix of the rule taken
for the path, and the client's, each extended by the same folders.  An empty
prefix leaves the path as it is, and then the rule taken for it has to. -/
def Consistent (maps : List PathMapping) (arrPath : PathBuf) : Prop :=
  ∀ map rest, Selects maps PathMapping.arr arrPath map rest →
    if map.arr.components = [] then
      ∀ other left, Selects maps PathMapping.sharerr arrPath other left →
        other.sharerr.components = [] ∨ other.client = other.sharerr
    else
      map.sharerr.isAbsolute = true ∧
      ∀ other left,
        Selects maps PathMapping.sharerr (map.sharerr.join rest) other left →
          ∃ folders,
            other.sharerr.components = map.sharerr.components ++ folders ∧
            other.client.components = map.client.components ++ folders

section Views

variable {maps : List PathMapping} {path view rest : PathBuf}
  {map : PathMapping} {resolved : ResolvedPaths}

theorem resolve_cases (found : resolve maps path = .ok resolved)
    (applied : resolved.mappingApplied = true) :
    path.isAbsolute = true ∧ ∃ map rest,
      Selects maps PathMapping.arr path map rest ∧
      resolved.sharerr = map.sharerr.join rest ∧
      resolved.qbit = map.client.join rest := by
  rw [resolve] at found
  split at found
  · cases found
  · next absolute =>
      rw [Bool.not_eq_false] at absolute
      split at found
      · next map rest matched =>
          cases found
          exact ⟨absolute, map, rest, mostSpecificMatch_eq_some.mp matched,
            rfl, rfl⟩
      · cases found
        cases applied

/-- The client is told the client's prefix, which is the own one where the rule
gives none. -/
theorem resolveSharerr_of_selects (absolute : view.isAbsolute = true)
    (selected : Selects maps PathMapping.sharerr view map rest) :
    ∃ again, resolveSharerr maps view = .ok again ∧
      again.qbit = map.client.join rest := by
  rw [resolveSharerr, absolute, mostSpecificMatch_eq_some.mpr selected]
  refine ⟨_, rfl, ?_⟩
  cases given : map.qbit with
  | none =>
    have back := PathBuf.join_stripped absolute selected.1.whole
    simp only [Option.bind_some, given, Option.map_none, Option.getD_none,
      PathMapping.client]
    exact back.symm
  | some base =>
    simp only [Option.bind_some, given, Option.map_some, Option.getD_some,
      PathMapping.client]

theorem resolveSharerr_of_none (absolute : view.isAbsolute = true)
    (none_ : mostSpecificMatch maps PathMapping.sharerr view = none) :
    ∃ again, resolveSharerr maps view = .ok again ∧ again.qbit = view := by
  rw [resolveSharerr, absolute, none_]
  exact ⟨_, rfl, rfl⟩

/-- Told again, the client is told the same. -/
def Agrees (maps : List PathMapping) (resolved : ResolvedPaths) : Prop :=
  ∃ again, resolveSharerr maps resolved.sharerr = .ok again ∧
    again.qbit = resolved.qbit

theorem agrees_of_selects (absolute : resolved.sharerr.isAbsolute = true)
    (selected : Selects maps PathMapping.sharerr resolved.sharerr map rest) :
    Agrees maps resolved ↔ map.client.join rest = resolved.qbit := by
  obtain ⟨again, found, told⟩ := resolveSharerr_of_selects absolute selected
  constructor
  · intro agrees
    obtain ⟨again_, found_, told_⟩ := agrees
    cases found.symm.trans found_
    exact told.symm.trans told_
  · intro same
    exact ⟨again, found, told.trans same⟩

theorem agrees_iff_of_empty (absolute : path.isAbsolute = true)
    (sharerr : resolved.sharerr = path) (qbit : resolved.qbit = path) :
    Agrees maps resolved ↔
      ∀ other left, Selects maps PathMapping.sharerr path other left →
        other.sharerr.components = [] ∨ other.client = other.sharerr := by
  have absolute_ : resolved.sharerr.isAbsolute = true := by
    rw [sharerr]
    exact absolute
  cases found : mostSpecificMatch maps PathMapping.sharerr path with
  | none =>
    obtain ⟨again, told, passed⟩ := resolveSharerr_of_none absolute found
    constructor
    · intro _ other left selected
      rw [mostSpecificMatch_eq_some.mpr selected] at found
      cases found
    · intro _
      exact ⟨again, by rw [sharerr]; exact told, by rw [passed, qbit]⟩
  | some taken =>
    obtain ⟨other, left⟩ := taken
    have selected := mostSpecificMatch_eq_some.mp found
    have selected_ : Selects maps PathMapping.sharerr resolved.sharerr other
        left := by
      rw [sharerr]
      exact selected
    have back := PathBuf.join_stripped absolute selected.1.whole
    rw [agrees_of_selects absolute_ selected_, qbit]
    constructor
    · intro told other_ left_ selected'
      obtain ⟨rfl, rfl⟩ := selected.unique selected'
      rcases PathBuf.absolute_or_plain absolute selected.1.whole with
        ⟨empty, -⟩ | ⟨-, plain⟩
      · exact Or.inl empty
      · have same := congrArg PathBuf.components (told.trans back.symm)
        rw [PathBuf.components_join plain,
          PathBuf.components_join plain] at same
        exact Or.inr (PathBuf.ext (List.append_cancel_right same))
    · intro consistent
      rcases consistent other left selected with empty | same
      · have whole := selected.1.whole
        rw [empty, List.nil_append] at whole
        rw [← PathBuf.ext whole]
        exact PathBuf.join_of_isAbsolute absolute
      · rw [same]
        exact back

theorem isAbsolute_join_iff {base : PathBuf} (plain : rest.Plain) :
    (base.join rest).isAbsolute = true ↔ base.isAbsolute = true := by
  simp only [PathBuf.isAbsolute, decide_eq_true_eq,
    PathBuf.components_join plain]
  cases base.components with
  | nil =>
    rw [List.nil_append]
    refine ⟨fun rooted => ?_, fun empty => by cases empty⟩
    exact absurd (plain _ (List.mem_of_mem_head? rooted)) (by decide)
  | cons first others => exact Iff.rfl

theorem agrees_iff_of_rest (member : map ∈ maps) (plain : rest.Plain)
    (sharerr : resolved.sharerr = map.sharerr.join rest)
    (qbit : resolved.qbit = map.client.join rest) :
    Agrees maps resolved ↔ map.sharerr.isAbsolute = true ∧
      ∀ other left,
        Selects maps PathMapping.sharerr (map.sharerr.join rest) other left →
          ∃ folders,
            other.sharerr.components = map.sharerr.components ++ folders ∧
            other.client.components = map.client.components ++ folders := by
  by_cases absolute : map.sharerr.isAbsolute = true
  · have absolute_ : resolved.sharerr.isAbsolute = true := by
      rw [sharerr]
      exact (isAbsolute_join_iff plain).mpr absolute
    have matched : Matches PathMapping.sharerr resolved.sharerr map rest :=
      ⟨by rw [sharerr, PathBuf.components_join plain]⟩
    obtain ⟨other, left, selected⟩ := exists_selects member matched
    -- The rule taken is as specific, so its prefix begins with this one's.
    have longer := selected.specificity_le member matched
    have whole := matched.whole.symm.trans selected.1.whole
    obtain ⟨folders, extended, remains⟩ : ∃ folders,
        other.sharerr.components = map.sharerr.components ++ folders ∧
        rest.components = folders ++ left.components := by
      rcases List.append_eq_append_iff.mp whole with
        ⟨folders, front, back⟩ | ⟨folders, front, back⟩
      · exact ⟨folders, front, back⟩
      · have lengths := congrArg List.length front
        rw [List.length_append] at lengths
        rw [specificity, specificity] at longer
        have none_ : folders = [] :=
          List.length_eq_zero_iff.mp (by omega)
        subst none_
        exact ⟨[], by simpa using front.symm, by simpa using back.symm⟩
    have plain_ : left.Plain := by
      intro component among
      have later := List.mem_append_right folders among
      rw [← remains] at later
      exact plain component later
    have told : Agrees maps resolved ↔
        other.client.components = map.client.components ++ folders := by
      rw [agrees_of_selects absolute_ selected, qbit, PathBuf.ext_iff,
        PathBuf.components_join plain_, PathBuf.components_join plain,
        remains, ← List.append_assoc, List.append_cancel_right_eq]
    rw [told]
    constructor
    · intro same
      refine ⟨absolute, fun other_ left_ selected_ => ?_⟩
      rw [← sharerr] at selected_
      obtain ⟨rfl, rfl⟩ := selected.unique selected_
      exact ⟨folders, extended, same⟩
    · intro consistent
      rw [sharerr] at selected
      obtain ⟨folders_, extended_, same⟩ := consistent.2 other left selected
      rw [extended] at extended_
      rw [List.append_cancel_left extended_]
      exact same
  · constructor
    · intro agrees
      obtain ⟨again, found, -⟩ := agrees
      have relative : resolved.sharerr.isAbsolute = false := by
        rw [sharerr, ← Bool.not_eq_true]
        exact mt (isAbsolute_join_iff plain).mp absolute
      rw [resolveSharerr, if_pos relative] at found
      cases found
    · intro consistent
      exact absurd consistent.1 absolute

/-- Both views of a file lead to the same client path exactly where the rules
taken are consistent, and with prefixes that differ no resolution depends on
the order of the rules. -/
theorem two_views_agree_iff (maps : List PathMapping) (path : PathBuf)
    (resolved : ResolvedPaths) (found : resolve maps path = .ok resolved)
    (applied : resolved.mappingApplied = true) :
    ((∃ again, resolveSharerr maps resolved.sharerr = .ok again ∧
      again.qbit = resolved.qbit) ↔ Consistent maps path) ∧
    ∀ others : List PathMapping, maps.Perm others → ∀ other : PathBuf,
      ((maps.map PathMapping.arr).Nodup →
        resolve others other = resolve maps other) ∧
      ((maps.map PathMapping.sharerr).Nodup →
        resolveSharerr others other = resolveSharerr maps other) := by
  constructor
  · obtain ⟨absolute, map, rest, selected, sharerr, qbit⟩ :=
      resolve_cases found applied
    have member : map ∈ maps := by
      obtain ⟨-, before, after, rfl, -⟩ := selected
      simp
    have one : Consistent maps path ↔
        if map.arr.components = [] then _ else _ :=
      ⟨fun consistent => consistent map rest selected,
        fun here map_ rest_ selected_ => by
          obtain ⟨rfl, rfl⟩ := selected.unique selected_
          exact here⟩
    rw [one]
    rcases PathBuf.absolute_or_plain absolute selected.1.whole with
      ⟨empty, same⟩ | ⟨rooted, plain⟩
    · rw [if_pos empty]
      subst same
      rw [PathBuf.join_of_isAbsolute absolute] at sharerr qbit
      exact agrees_iff_of_empty absolute sharerr qbit
    · have nonempty : map.arr.components ≠ [] := by
        intro empty
        rw [PathBuf.isAbsolute, empty] at rooted
        cases rooted
      rw [if_neg nonempty]
      exact agrees_iff_of_rest member plain sharerr qbit
  · intro others perm other
    constructor
    · intro different
      rw [resolve, resolve, mostSpecificMatch_perm perm different]
    · intro different
      rw [resolveSharerr, resolveSharerr, mostSpecificMatch_perm perm different]

/-- A library, and a second mount inside it that the *arr apps know under
another name. -/
def crossing : List PathMapping :=
  [⟨.ofText "/tv", .ofText "/media", some (.ofText "/downloads")⟩,
    ⟨.ofText "/x", .ofText "/media/extras", some (.ofText "/dl2")⟩]

/-- For one file the client is told two paths. -/
theorem crossing_rules_disagree :
    ∃ resolved, resolve crossing (.ofText "/tv/extras/a") = .ok resolved ∧
      resolved.mappingApplied = true ∧
      resolved.qbit = .ofText "/downloads/extras/a" ∧
      ∃ again, resolveSharerr crossing resolved.sharerr = .ok again ∧
        again.qbit = .ofText "/dl2/a" ∧ again.qbit ≠ resolved.qbit :=
  ⟨_, rfl, rfl, rfl, _, rfl, rfl, by decide +kernel⟩

/-- The same mounts, where the client has the second one inside the first
too. -/
def nested : List PathMapping :=
  [⟨.ofText "/tv", .ofText "/media", some (.ofText "/downloads")⟩,
    ⟨.ofText "/x", .ofText "/media/extras",
      some (.ofText "/downloads/extras")⟩]

/-- The second rule is taken for the view of the first, and says the same. -/
theorem nested_rules_agree :
    ∃ resolved, resolve nested (.ofText "/tv/extras/a") = .ok resolved ∧
      ∃ again, resolveSharerr nested resolved.sharerr = .ok again ∧
        again.qbit = resolved.qbit := by
  refine ⟨_, rfl, (two_views_agree_iff nested (.ofText "/tv/extras/a") _ rfl
    rfl).1.mpr fun map rest selected => ?_⟩
  cases mostSpecificMatch_eq_some.mpr selected
  refine ⟨by decide +kernel, fun other left again => ?_⟩
  cases mostSpecificMatch_eq_some.mpr again
  exact ⟨[.normal "extras"], rfl, rfl⟩

end Views

end Paths

end Sharerr
