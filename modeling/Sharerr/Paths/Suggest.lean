import Sharerr.Items.Model
import Sharerr.Paths.Resolver
import Sharerr.Rust.Grouped
import Sharerr.Scan.Walk

/-!
# Suggested rules

The files below a search root are indexed by name and size.  A reported file of
which the index has exactly one suggests a rule: what is left of the two paths
without the components they end in together.
-/

namespace Sharerr

namespace PathSuggest

open Rust (HashMap PathBuf Path.Component)

inductive Metadata where
  | symlink
  | dir
  | file (len : Nat)
  | other
deriving DecidableEq, Repr

/-- A directory tree, as far as it can be read.  A name that is not UTF-8 is
kept as a slash, which no name has, and its bytes. -/
structure Disk where
  /-- The names in a directory, without those that fail to be listed. -/
  readDir : PathBuf → Option (List String)
  metadata : PathBuf → Option Metadata

/-- The path of a name in a directory, as `DirEntry::path`. -/
def entryPath (dir : PathBuf) (name : String) : PathBuf where
  components := dir.components ++ [.normal name]
  inner := PathBuf.inner_append dir.inner fun component member => by
    rw [List.mem_singleton.mp member]
    rfl

def fileName (path : PathBuf) : Option String :=
  match path.components.getLast? with
  | some (.normal name) => some name
  | _ => none

def toStr (name : String) : Option String :=
  if '/' ∈ name.toList then none else some name

/-- A name and a size. -/
abbrev Key := String × Nat

abbrev Index := HashMap Key (List PathBuf)

def indexEntry (disk : Disk) (descend : PathBuf → Index → Index)
    (dir : PathBuf) (map : Index) (name : String) : Index :=
  let path := entryPath dir name
  match disk.metadata path with
  | some .dir => descend path map
  | some (.file len) =>
    match (fileName path).bind toStr with
    | some name => map.push (name, len) path
    | none => map
  | _ => map

/-- What is below a directory, as many levels of it as are left. -/
def indexDir (disk : Disk) : Nat → PathBuf → Index → Index
  | 0, _, map => map
  | left + 1, dir, map =>
    match disk.readDir dir with
    | none => map
    | some entries =>
      entries.foldl (indexEntry disk (indexDir disk left) dir) map

def index (disk : Disk) (root : PathBuf) : Index :=
  indexDir disk (Scan.maxDepth + 1) root HashMap.empty

def front (path : PathBuf) (count : Nat) : PathBuf where
  components := path.components.take count
  inner := fun component member =>
    path.inner component ((List.take_sublist count _).tail.subset member)

/-- How many components the paths end in together, of those looked at. -/
def matchedCount (most : Nat) (arr sharerr : List Path.Component) : Nat :=
  (((arr.reverse.zip sharerr.reverse).take most).takeWhile fun pair =>
    decide (pair.1 = pair.2)).length

/-- Two paths to one file, without the tail they share. -/
def commonSuffixPrefixes (arrPath sharerrPath : PathBuf) :
    Option (PathBuf × PathBuf) :=
  if arrPath = sharerrPath then none
  else
    let arrLength := arrPath.components.length
    let sharerrLength := sharerrPath.components.length
    -- the root and one directory stay on the side of the *arr app
    let maxMatched := arrLength - 2
    let matched :=
      matchedCount maxMatched arrPath.components sharerrPath.components
    if matched = 0 ∨ matched = sharerrLength then none
    else some (front arrPath (arrLength - matched),
      front sharerrPath (sharerrLength - matched))

structure Suggestion where
  arr : PathBuf
  sharerr : PathBuf
  agreement : Nat
deriving DecidableEq

/-- The path the *arr app reports. -/
def reported (item : Discovered) : PathBuf := .ofText item.arrPath

def contribution (index : Index) (item : Discovered) :
    Option (PathBuf × PathBuf) := do
  let name ← (fileName (reported item)).bind toStr
  match ← index.get (name, item.size) with
  | [only] => commonSuffixPrefixes (reported item) only
  | _ => none

def agreements (disk : Disk) (root : PathBuf) (discovered : List Discovered) :
    HashMap (PathBuf × PathBuf) Nat :=
  (discovered.filterMap (contribution (index disk root))).foldl HashMap.bump
    HashMap.empty

def componentRank : Path.Component → Nat × String
  | .root => (0, "")
  | .current => (1, "")
  | .parent => (2, "")
  | .normal name => (3, name)

def componentCmp : Path.Component → Path.Component → Ordering :=
  compareLex (compareOn fun component => (componentRank component).1)
    (compareOn fun component => (componentRank component).2)

def pathCmp (left right : PathBuf) : Ordering :=
  List.compareLex componentCmp left.components right.components

def suggestionCmp (left right : Suggestion) : Ordering :=
  (compare right.agreement left.agreement).then (pathCmp left.arr right.arr)

/-- `suggest`, with the pairs as the map happens to iterate over them. -/
def suggest (iterated : List ((PathBuf × PathBuf) × Nat)) : List Suggestion :=
  (iterated.map fun entry =>
    (⟨entry.1.1, entry.1.2, entry.2⟩ : Suggestion)).mergeSort
      fun left right => (suggestionCmp left right).isLE

def entryFiles (disk : Disk) (below : PathBuf → List (Key × PathBuf))
    (dir : PathBuf) (name : String) : List (Key × PathBuf) :=
  let path := entryPath dir name
  match disk.metadata path with
  | some .dir => below path
  | some (.file len) =>
    ((fileName path).bind toStr).toList.map fun name => ((name, len), path)
  | _ => []

/-- The regular files below a directory, with what they are indexed by. -/
def filesUnder (disk : Disk) : Nat → PathBuf → List (Key × PathBuf)
  | 0, _ => []
  | left + 1, dir =>
    ((disk.readDir dir).getD []).flatMap
      (entryFiles disk (filesUnder disk left) dir)

def indexedFiles (disk : Disk) (root : PathBuf) : List (Key × PathBuf) :=
  filesUnder disk (Scan.maxDepth + 1) root

section Indexed

variable {disk : Disk} {root dir : PathBuf} {key : Key} {path : PathBuf}

theorem indexEntry_eq {descend : PathBuf → Index → Index}
    {below : PathBuf → List (Key × PathBuf)}
    (descends : ∀ dir map, descend dir map =
      (below dir).foldl (fun map each => map.push each.1 each.2) map)
    (dir : PathBuf) (map : Index) (name : String) :
    indexEntry disk descend dir map name =
      (entryFiles disk below dir name).foldl
        (fun map each => map.push each.1 each.2) map := by
  unfold indexEntry entryFiles
  dsimp only
  split
  · exact descends _ map
  · cases (fileName (entryPath dir name)).bind toStr <;> rfl
  · rfl

theorem indexDir_eq (left : Nat) (dir : PathBuf) (map : Index) :
    indexDir disk left dir map =
      (filesUnder disk left dir).foldl
        (fun map each => map.push each.1 each.2) map := by
  induction left generalizing dir map with
  | zero => rfl
  | succ left ih =>
    rw [indexDir, filesUnder, List.foldl_flatMap]
    cases disk.readDir dir with
    | none => rfl
    | some entries =>
      exact congrArg (fun step => entries.foldl step map)
        (funext fun map => funext fun name => indexEntry_eq ih dir map name)

theorem getD_index (key : Key) :
    ((index disk root).get key).getD [] =
      ((indexedFiles disk root).filter fun each => each.1 = key).map (·.2) := by
  rw [index, indexDir_eq, HashMap.getD_foldl_push, HashMap.get_empty]
  exact List.nil_append _

theorem mem_filesUnder {left : Nat}
    (member : (key, path) ∈ filesUnder disk left dir) :
    fileName path = some key.1 ∧
      ∃ later, path.components = dir.components ++ later := by
  induction left generalizing dir with
  | zero => cases member
  | succ left ih =>
    obtain ⟨name, -, among⟩ := List.mem_flatMap.mp member
    unfold entryFiles at among
    dsimp only at among
    split at among
    · obtain ⟨named, later, whole⟩ := ih among
      refine ⟨named, .normal name :: later, ?_⟩
      rw [whole, entryPath, List.append_assoc]
      rfl
    · obtain ⟨text, held, same⟩ := List.mem_map.mp among
      cases same
      obtain ⟨last, named, text_⟩ :=
        Option.bind_eq_some_iff.mp (Option.mem_toList.mp held)
      rw [toStr] at text_
      split at text_
      · cases text_
      · cases text_
        exact ⟨named, _, rfl⟩
    · cases among

theorem isAbsolute_of_mem (rooted : root.isAbsolute = true)
    (member : (key, path) ∈ indexedFiles disk root) :
    path.isAbsolute = true := by
  obtain ⟨-, later, whole⟩ := mem_filesUnder member
  rw [PathBuf.isAbsolute, decide_eq_true_eq] at rooted ⊢
  rw [whole, List.head?_append, rooted]
  rfl

end Indexed

theorem takeWhile_same (most : Nat) (left right : List Path.Component) :
    let count := (((left.zip right).take most).takeWhile fun pair =>
      decide (pair.1 = pair.2)).length
    left.take count = right.take count ∧ count ≤ most ∧
      count ≤ left.length ∧ count ≤ right.length := by
  induction left generalizing most right with
  | nil => simp
  | cons first left ih =>
    cases right with
    | nil => simp
    | cons other right =>
      cases most with
      | zero => simp
      | succ most =>
        obtain ⟨together, below, shortLeft, shortRight⟩ := ih most right
        by_cases same : first = other
        · subst same
          simp only [List.zip_cons_cons, List.take_succ_cons,
            List.takeWhile_cons, decide_true, if_true, List.length_cons]
          exact ⟨congrArg _ together, by omega, by omega, by omega⟩
        · simp [same]

theorem matchedCount_spec (most : Nat) (arr sharerr : List Path.Component) :
    ∃ together arrFront sharerrFront,
      together.length = matchedCount most arr sharerr ∧
      matchedCount most arr sharerr ≤ most ∧
      arr = arrFront ++ together ∧ sharerr = sharerrFront ++ together := by
  obtain ⟨same, below, shortArr, shortSharerr⟩ :=
    takeWhile_same most arr.reverse sharerr.reverse
  rw [List.length_reverse] at shortArr shortSharerr
  rw [List.take_reverse, List.take_reverse] at same
  refine ⟨arr.drop (arr.length - matchedCount most arr sharerr),
    arr.take (arr.length - matchedCount most arr sharerr),
    sharerr.take (sharerr.length - matchedCount most arr sharerr), ?_, below,
    (List.take_append_drop _ _).symm, ?_⟩
  · rw [List.length_drop]
    exact Nat.sub_sub_self shortArr
  · rw [matchedCount, List.reverse_injective same]
    exact (List.take_append_drop _ _).symm

/-- Paths with one last component end in it together, if it may be looked
at. -/
theorem matchedCount_pos {most : Nat} {arr sharerr : List Path.Component}
    {last : Path.Component} (looked : 0 < most)
    (arrLast : arr.getLast? = some last)
    (sharerrLast : sharerr.getLast? = some last) :
    0 < matchedCount most arr sharerr := by
  rw [← List.head?_reverse] at arrLast sharerrLast
  obtain ⟨arrRest, arr_⟩ := List.head?_eq_some_iff.mp arrLast
  obtain ⟨sharerrRest, sharerr_⟩ := List.head?_eq_some_iff.mp sharerrLast
  obtain ⟨most, rfl⟩ := Nat.exists_eq_succ_of_ne_zero (Nat.ne_of_gt looked)
  rw [matchedCount, arr_, sharerr_, List.zip_cons_cons, List.take_succ_cons,
    List.takeWhile_cons, if_pos (decide_eq_true rfl)]
  exact Nat.succ_pos _

section Prefixes

variable {arrPath found arr sharerr : PathBuf}

/-- The prefixes are in front of what the paths share, and two components are
left of the one reported. -/
theorem commonSuffixPrefixes_cases
    (made : commonSuffixPrefixes arrPath found = some (arr, sharerr)) :
    ∃ together, arrPath.components = arr.components ++ together ∧
      found.components = sharerr.components ++ together ∧
      2 ≤ arr.components.length := by
  obtain ⟨together, arrFront, sharerrFront, count, below, arr_, found_⟩ :=
    matchedCount_spec (arrPath.components.length - 2) arrPath.components
      found.components
  rw [commonSuffixPrefixes] at made
  split at made
  · cases made
  · dsimp only at made
    split at made
    · cases made
    · next some_ =>
        cases made
        have arrLength := congrArg List.length arr_
        have foundLength := congrArg List.length found_
        rw [List.length_append] at arrLength foundLength
        refine ⟨together, ?_, ?_, ?_⟩
        · rw [front, ← count, arrLength, Nat.add_sub_cancel]
          dsimp only
          rw [arr_, List.take_left]
        · rw [front, ← count, foundLength, Nat.add_sub_cancel]
          dsimp only
          rw [found_, List.take_left]
        · rw [front, List.length_take]
          omega

/-- Different paths that end in one name suggest something, when two levels
stand below the root. -/
theorem exists_commonSuffixPrefixes {name : String}
    (foundAbsolute : found.isAbsolute = true)
    (arrName : fileName arrPath = some name)
    (foundName : fileName found = some name) (differ : found ≠ arrPath)
    (deep : 3 ≤ arrPath.components.length) :
    ∃ pair, commonSuffixPrefixes arrPath found = some pair := by
  have last : ∀ path, fileName path = some name →
      path.components.getLast? = some (.normal name) := by
    intro path named
    unfold fileName at named
    split at named
    · next ends =>
        cases named
        exact ends
    · cases named
  have looked : 0 < arrPath.components.length - 2 := by omega
  have some_ := matchedCount_pos looked (last _ arrName) (last _ foundName)
  obtain ⟨together, arrFront, sharerrFront, count, below, arr_, found_⟩ :=
    matchedCount_spec (arrPath.components.length - 2) arrPath.components
      found.components
  have inside : matchedCount (arrPath.components.length - 2) arrPath.components
      found.components ≠ found.components.length := by
    -- The root in front of the found path is not among the others' components.
    intro all
    have foundLength := congrArg List.length found_
    have arrLength := congrArg List.length arr_
    rw [List.length_append] at foundLength arrLength
    have whole : sharerrFront = [] := List.length_eq_zero_iff.mp (by omega)
    rw [whole, List.nil_append] at found_
    rw [PathBuf.isAbsolute, decide_eq_true_eq, found_] at foundAbsolute
    obtain ⟨others, rooted⟩ := List.head?_eq_some_iff.mp foundAbsolute
    cases arrFront with
    | nil =>
      rw [List.length_nil] at arrLength
      omega
    | cons first arrFront =>
      have inner := arrPath.inner .root
      rw [arr_, rooted] at inner
      cases inner (List.mem_append_right _ List.mem_cons_self)
  rw [commonSuffixPrefixes, if_neg (Ne.symm differ)]
  exact ⟨_, if_neg (not_or.mpr ⟨Nat.ne_of_gt some_, inside⟩)⟩

end Prefixes

/-- The only file indexed under the name and the size of the item. -/
def OnlyMatch (disk : Disk) (root : PathBuf) (item : Discovered)
    (found : PathBuf) : Prop :=
  ∃ name, fileName (reported item) = some name ∧
    ((indexedFiles disk root).filter fun each => each.1 = (name, item.size)) =
      [((name, item.size), found)]

/-- The unique match of the item yields the pair. -/
def Contributes (disk : Disk) (root : PathBuf) (item : Discovered)
    (arr sharerr : PathBuf) : Prop :=
  ∃ found, OnlyMatch disk root item found ∧
    commonSuffixPrefixes (reported item) found = some (arr, sharerr)

section Contributions

variable {disk : Disk} {root found : PathBuf} {item : Discovered}
  {arr sharerr : PathBuf}

theorem toStr_of_reported {name : String}
    (named : fileName (reported item) = some name) : toStr name = some name :=
  if_neg (Rust.Path.isName_of_fileName
    (named : Rust.Path.fileName item.arrPath = some name)).plain

theorem get_index_eq_only {key : Key} :
    (index disk root).get key = some [found] ↔
      ((indexedFiles disk root).filter fun each => each.1 = key) =
        [(key, found)] := by
  have values : ((index disk root).get key).getD [] = _ := getD_index key
  constructor
  · intro held
    rw [held, Option.getD_some] at values
    obtain ⟨⟨under, path⟩, only, same⟩ :=
      List.map_eq_singleton_iff.mp values.symm
    have mine := List.mem_filter.mp (only ▸ List.mem_singleton_self _)
    obtain rfl : under = key := by simpa using mine.2
    cases same
    exact only
  · intro only
    rw [only] at values
    cases held : (index disk root).get key with
    | none =>
      rw [held] at values
      cases values
    | some candidates =>
      rw [held] at values
      exact congrArg some values

theorem contribution_eq_some :
    contribution (index disk root) item = some (arr, sharerr) ↔
      Contributes disk root item arr sharerr := by
  rw [contribution]
  constructor
  · intro made
    obtain ⟨text, text_, looked⟩ := Option.bind_eq_some_iff.mp made
    obtain ⟨name, named, same⟩ := Option.bind_eq_some_iff.mp text_
    rw [toStr_of_reported named, Option.some.injEq] at same
    subst same
    obtain ⟨candidates, held, only⟩ := Option.bind_eq_some_iff.mp looked
    split at only
    · next found =>
        exact ⟨found, ⟨name, named, get_index_eq_only.mp held⟩, only⟩
    · cases only
  · intro contributes
    obtain ⟨found, ⟨name, named, only⟩, made⟩ := contributes
    rw [named, Option.bind_some, toStr_of_reported named]
    simp only [Option.bind_eq_bind, Option.bind_some,
      get_index_eq_only.mpr only]
    exact made

instance : Decidable (Contributes disk root item arr sharerr) :=
  decidable_of_iff _ contribution_eq_some

theorem OnlyMatch.indexed (only : OnlyMatch disk root item found) :
    ∃ name, fileName (reported item) = some name ∧
      ((name, item.size), found) ∈ indexedFiles disk root := by
  obtain ⟨name, named, same⟩ := only
  have among : ((name, item.size), found) ∈ ((indexedFiles disk root).filter
      fun each => each.1 = (name, item.size)) := by
    rw [same]
    exact List.mem_singleton_self _
  exact ⟨name, named, (List.mem_filter.mp among).1⟩

/-- A rule of the pair leads from the path reported to the file found. -/
theorem Contributes.resolves (rooted : root.isAbsolute = true)
    (absolute : (reported item).isAbsolute = true)
    (contributes : Contributes disk root item arr sharerr) :
    ∃ found, OnlyMatch disk root item found ∧ ∀ qbit, ∃ resolved,
      Paths.resolve [⟨arr, sharerr, qbit⟩] (reported item) = .ok resolved ∧
      resolved.mappingApplied = true ∧ resolved.sharerr = found := by
  obtain ⟨found, only, made⟩ := contributes
  obtain ⟨name, -, among⟩ := only.indexed
  obtain ⟨together, arr_, found_, -⟩ := commonSuffixPrefixes_cases made
  obtain ⟨rest, stripped⟩ :
      ∃ rest, (reported item).stripPrefix arr = some rest :=
    ⟨_, if_pos (List.isPrefixOf_iff_prefix.mpr ⟨together, arr_.symm⟩)⟩
  have whole := PathBuf.stripPrefix_eq_some.mp stripped
  have rest_ : rest.components = together :=
    List.append_cancel_left (whole.symm.trans arr_)
  refine ⟨found, only, fun qbit => ?_⟩
  have selected : Paths.mostSpecificMatch [⟨arr, sharerr, qbit⟩]
      Paths.PathMapping.arr (reported item) =
        some (⟨arr, sharerr, qbit⟩, rest) :=
    Paths.mostSpecificMatch_eq_some.mpr ⟨⟨whole⟩, [], [], rfl, by simp, by simp⟩
  rw [Paths.resolve, absolute, if_neg Bool.noConfusion, selected]
  refine ⟨_, rfl, rfl, ?_⟩
  exact PathBuf.join_stripped (isAbsolute_of_mem rooted among)
    (rest_ ▸ found_)

theorem Contributes.deep (absolute : (reported item).isAbsolute = true)
    (contributes : Contributes disk root item arr sharerr) :
    ∃ first rest, arr.components = .root :: first :: rest := by
  obtain ⟨found, -, made⟩ := contributes
  obtain ⟨together, arr_, -, two⟩ := commonSuffixPrefixes_cases made
  rw [PathBuf.isAbsolute, decide_eq_true_eq, arr_] at absolute
  cases held : arr.components with
  | nil =>
    rw [held] at two
    cases two
  | cons first more =>
    rw [held] at absolute two
    cases Option.some.inj absolute
    cases more with
    | nil => exact absurd two (by simp)
    | cons second rest => exact ⟨second, rest, rfl⟩

theorem OnlyMatch.contributes (only : OnlyMatch disk root item found)
    (rooted : root.isAbsolute = true) (differ : found ≠ reported item)
    (deep : 3 ≤ (reported item).components.length) :
    ∃ arr sharerr, Contributes disk root item arr sharerr := by
  obtain ⟨name, named, among⟩ := only.indexed
  obtain ⟨⟨arr, sharerr⟩, made⟩ := exists_commonSuffixPrefixes
    (isAbsolute_of_mem rooted among) named (mem_filesUnder among).1 differ deep
  exact ⟨arr, sharerr, found, only, made⟩

theorem Contributes.unique {arr' sharerr' : PathBuf}
    (one : Contributes disk root item arr sharerr)
    (two : Contributes disk root item arr' sharerr') :
    (arr, sharerr) = (arr', sharerr') :=
  Option.some.inj ((contribution_eq_some.mpr one).symm.trans
    (contribution_eq_some.mpr two))

end Contributions

section Suggested

variable {disk : Disk} {root : PathBuf} {discovered : List Discovered}
  {iterated : List ((PathBuf × PathBuf) × Nat)}

theorem suggest_perm (iterated : List ((PathBuf × PathBuf) × Nat)) :
    (suggest iterated).Perm (iterated.map fun entry =>
      ⟨entry.1.1, entry.1.2, entry.2⟩) :=
  List.mergeSort_perm _ _

theorem mem_agreements {arr sharerr : PathBuf} {agreement : Nat} :
    ((arr, sharerr), agreement) ∈ (agreements disk root discovered).entries ↔
      (∃ item ∈ discovered, Contributes disk root item arr sharerr) ∧
        agreement = discovered.countP fun item =>
          Contributes disk root item arr sharerr := by
  rw [agreements, HashMap.mem_foldl_bump, List.mem_filterMap,
    List.countP_filterMap]
  simp only [contribution_eq_some]
  refine and_congr_right fun _ => iff_of_eq (congrArg (agreement = ·)
    (List.countP_congr fun item _ => ?_))
  rw [decide_eq_true_eq, ← contribution_eq_some]
  cases contribution (index disk root) item <;> simp

theorem mem_suggest
    (order : iterated.Perm (agreements disk root discovered).entries)
    {suggestion : Suggestion} : suggestion ∈ suggest iterated ↔
      (∃ item ∈ discovered,
        Contributes disk root item suggestion.arr suggestion.sharerr) ∧
      suggestion.agreement = discovered.countP fun item =>
        Contributes disk root item suggestion.arr suggestion.sharerr := by
  rw [← mem_agreements, (suggest_perm iterated).mem_iff, ← order.mem_iff,
    List.mem_map]
  constructor
  · intro made
    obtain ⟨entry, member, rfl⟩ := made
    exact member
  · intro member
    exact ⟨_, member, rfl⟩

theorem countP_suggest
    (order : iterated.Perm (agreements disk root discovered).entries)
    {item : Discovered} {arr sharerr : PathBuf} (member : item ∈ discovered)
    (contributes : Contributes disk root item arr sharerr) :
    ((suggest iterated).countP fun suggestion =>
      Contributes disk root item suggestion.arr suggestion.sharerr) = 1 := by
  have keys : ((agreements disk root discovered).entries.map (·.1)).count
      (arr, sharerr) = 1 :=
    List.count_eq_one_of_mem (agreements disk root discovered).distinct
      (List.mem_map.mpr ⟨_, mem_agreements.mpr
        ⟨⟨item, member, contributes⟩, rfl⟩, rfl⟩)
  rw [(suggest_perm iterated).countP_eq, List.countP_map, order.countP_eq,
    ← keys, List.count, List.countP_map]
  apply List.countP_congr
  intro entry _
  simp only [Function.comp_apply, decide_eq_true_eq, beq_iff_eq]
  constructor
  · intro other
    exact other.unique contributes
  · intro same
    rw [same]
    exact contributes

/-- A suggestion maps each path behind it to the only file of that name and
size, keeps a directory of it and counts the items behind it; and an item with
one such file elsewhere, deep enough, is behind one suggestion. -/
theorem suggestions_sound (disk : Disk) (root : PathBuf)
    (rooted : root.isAbsolute = true) (discovered : List Discovered)
    (absolute : ∀ item ∈ discovered, (reported item).isAbsolute = true)
    (iterated : List ((PathBuf × PathBuf) × Nat))
    (order : iterated.Perm (agreements disk root discovered).entries) :
    (∀ suggestion ∈ suggest iterated,
      (∀ item ∈ discovered,
        Contributes disk root item suggestion.arr suggestion.sharerr →
          ∃ found, OnlyMatch disk root item found ∧ ∀ qbit, ∃ resolved,
            Paths.resolve [⟨suggestion.arr, suggestion.sharerr, qbit⟩]
              (reported item) = .ok resolved ∧
            resolved.mappingApplied = true ∧ resolved.sharerr = found) ∧
      (∃ first rest, suggestion.arr.components = .root :: first :: rest) ∧
      suggestion.agreement = discovered.countP fun item =>
        Contributes disk root item suggestion.arr suggestion.sharerr) ∧
    ∀ item ∈ discovered, ∀ found, OnlyMatch disk root item found →
      found ≠ reported item → 3 ≤ (reported item).components.length →
      ((suggest iterated).countP fun suggestion =>
        Contributes disk root item suggestion.arr suggestion.sharerr) = 1 := by
  constructor
  · intro suggestion suggested
    obtain ⟨⟨item, member, contributes⟩, counted⟩ :=
      (mem_suggest order).mp suggested
    exact ⟨fun other among contributes_ =>
        contributes_.resolves rooted (absolute other among),
      contributes.deep (absolute item member), counted⟩
  · intro item member found only differ deep
    obtain ⟨arr, sharerr, contributes⟩ := only.contributes rooted differ deep
    exact countP_suggest order member contributes

end Suggested

/-- A library of one show, mounted in `/media`. -/
def mounted : Disk where
  readDir path :=
    if path = .ofText "/media" then some ["tv"]
    else if path = .ofText "/media/tv" then some ["Show"]
    else if path = .ofText "/media/tv/Show" then some ["e01.mkv", "e02.mkv"]
    else none
  metadata path :=
    if path = .ofText "/media/tv/Show/e01.mkv" then some (.file 3)
    else if path = .ofText "/media/tv/Show/e02.mkv" then some (.file 4)
    else if path = .ofText "/media/tv" ∨ path = .ofText "/media/tv/Show" then
      some .dir
    else none

def episode (number : Nat) (path : String) (size : Nat) : Discovered where
  source := .sonarr
  sourceId := 1
  fileId := number
  spec := .episode "Show" 1 number
  arrPath := path
  size := size
  ids := ⟨none, none, none, none, none, none, none, none⟩
  sceneName := none
  originalPath := none
  media := none
  scene := none

def season : List Discovered :=
  [episode 1 "/tv/Show/e01.mkv" 3, episode 2 "/tv//Show/./e02.mkv" 4]

theorem season_is_mapped :
    ((suggest (agreements mounted (.ofText "/media") season).entries).countP
      fun suggestion => Contributes mounted (.ofText "/media")
        (episode 1 "/tv/Show/e01.mkv" 3) suggestion.arr
        suggestion.sharerr) = 1 :=
  (suggestions_sound mounted (.ofText "/media") (by decide +kernel) season
    (by decide +kernel) _ (List.Perm.refl _)).2 _ List.mem_cons_self
    (.ofText "/media/tv/Show/e01.mkv")
    ⟨"e01.mkv", by decide +kernel, by decide +kernel⟩ (by decide +kernel)
    (by decide +kernel)

end PathSuggest

end Sharerr
