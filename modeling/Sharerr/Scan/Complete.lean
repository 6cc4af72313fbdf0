import Mathlib.Data.List.Basic
import Sharerr.Scan.Walk

/-!
# When a scan that says so is complete

A scan that counts no corner as incomplete has listed every directory it
should, and looked at every entry.  It has every media file too, provided that
the links it met could be followed: an error there is passed over as a broken
link, and counted nowhere.
-/

namespace Sharerr

namespace Scan

/-- The directories below `dir`, by how far below, with no hidden name and no
link on the way. -/
inductive Reaches (disk : Disk) : String → Nat → String → Prop where
  | here {dir : String} : Reaches disk dir 0 dir
  | deeper {dir name sub : String} {depth : Nat} :
      name ∈ disk.held dir → hidden name = false →
      disk.entry (Rust.Path.join dir name) = some (.node .dir) →
      Reaches disk (Rust.Path.join dir name) depth sub →
      Reaches disk dir (depth + 1) sub

/-- A path at which there is a file, or a link that leads to one. -/
def LeadsToFile (disk : Disk) (path : String) : Prop :=
  ∃ size, disk.entry path = some (.node (.file size)) ∨
    disk.entry path = some .symlink ∧ disk.target path = some (.file size)

/-- A path the walk sees a file at. -/
def SeesFile (disk : Disk) (path : String) : Prop :=
  ∃ size, meet disk path = .file size

/-- The files of the library's kind below `dir` of which `there` holds. -/
def MediaBelow (disk : Disk) (kind : LibraryKind) (there : String → Prop)
    (dir path : String) : Prop :=
  ∃ depth sub name, Reaches disk dir depth sub ∧ name ∈ disk.held sub ∧
    hidden name = false ∧ path = Rust.Path.join sub name ∧ there path ∧
    hasMediaExtension path kind = true

/-- A directory that is listed to its end, and whose entries can all be looked
at. -/
structure Clean (disk : Disk) (dir : String) : Prop where
  listed : ∃ yields, disk.readDir dir = .ok yields ∧
    ∀ error lost, Yield.error error lost ∉ yields
  looked : ∀ name ∈ disk.held dir, hidden name = false →
    meet disk (Rust.Path.join dir name) ≠ .failed

/-- Every directory below `dir` is clean, and within `levels`. -/
def CleanBelow (disk : Disk) (levels : Nat) (dir : String) : Prop :=
  ∀ depth sub, Reaches disk dir depth sub → depth < levels ∧ Clean disk sub

theorem reaches_iff {disk : Disk} {dir sub : String} {depth : Nat} :
    Reaches disk dir depth sub ↔
      (depth = 0 ∧ sub = dir) ∨
        ∃ name further, depth = further + 1 ∧ name ∈ disk.held dir ∧
          hidden name = false ∧
          disk.entry (Rust.Path.join dir name) = some (.node .dir) ∧
          Reaches disk (Rust.Path.join dir name) further sub := by
  constructor
  · intro reaches
    cases reaches with
    | here => exact Or.inl ⟨rfl, rfl⟩
    | deeper held shown entry further =>
      exact Or.inr ⟨_, _, rfl, held, shown, entry, further⟩
  · intro found
    rcases found with ⟨rfl, rfl⟩ | ⟨name, further, rfl, held, shown, entry,
      reaches⟩
    · exact .here
    · exact .deeper held shown entry reaches

section Accounts

variable (library : LibraryConfig)

/-- What a part of the walk adds.  It counts nothing as incomplete exactly when
it is `fine`, and then the files it has `seen` are its new items and those it
has counted as skipped. -/
structure Accounts (fine : Prop) (seen : String → Prop)
    (outcome after : ScanOutcome) : Prop where
  grows : outcome.incomplete ≤ after.incomplete
  whole : after.incomplete = outcome.incomplete ↔ fine
  ofDirectory : ∀ item ∈ after.items,
    item ∈ outcome.items ∨ item.source = .directory
  listed : fine → ∃ (items : List Discovered) (skipped : List String),
    after.items = outcome.items ++ items ∧
    after.skipped = outcome.skipped + skipped.length ∧
    (∀ path, seen path ↔
      path ∈ skipped ∨ ∃ item ∈ items, item.arrPath = path) ∧
    ∀ path ∈ skipped, specFor library.path path library.kind = none

variable {library} {fine fine' : Prop} {seen seen' : String → Prop}
  {outcome middle after : ScanOutcome}

namespace Accounts

theorem nothing (outcome : ScanOutcome) :
    Accounts library True (fun _ => False) outcome outcome where
  grows := le_refl _
  whole := by simp
  ofDirectory := fun _ => .inl
  listed := by
    intro _
    exact ⟨[], [], by simp, by simp, by simp, by simp⟩

theorem cut (outcome : ScanOutcome) :
    Accounts library False (fun _ => False) outcome outcome.cut where
  grows := Nat.le_succ _
  whole := by simp [ScanOutcome.cut]
  ofDirectory := fun _ => .inl
  listed := False.elim

theorem trans (first : Accounts library fine seen outcome middle)
    (second : Accounts library fine' seen' middle after) :
    Accounts library (fine ∧ fine') (fun path => seen path ∨ seen' path)
      outcome after where
  grows := first.grows.trans second.grows
  whole := by
    have early := first.grows
    have late := second.grows
    rw [← first.whole, ← second.whole]
    omega
  ofDirectory := by
    intro item member
    rcases second.ofDirectory item member with old | own
    · exact first.ofDirectory item old
    · exact .inr own
  listed := by
    intro both
    obtain ⟨items, skipped, added, counted, listed, unnamed⟩ :=
      first.listed both.1
    obtain ⟨items', skipped', added', counted', listed', unnamed'⟩ :=
      second.listed both.2
    refine ⟨items ++ items', skipped ++ skipped', ?_, ?_, ?_, ?_⟩
    · rw [added', added, List.append_assoc]
    · rw [counted', counted, List.length_append, Nat.add_assoc]
    · intro path
      rw [listed, listed']
      simp only [List.mem_append, or_and_right, exists_or]
      exact or_or_or_comm
    · intro path member
      rcases List.mem_append.mp member with one | other
      · exact unnamed path one
      · exact unnamed' path other

theorem congr (accounts : Accounts library fine seen outcome after)
    (sameFine : fine ↔ fine') (same : fine → ∀ path, seen path ↔ seen' path) :
    Accounts library fine' seen' outcome after where
  grows := accounts.grows
  whole := accounts.whole.trans sameFine
  ofDirectory := accounts.ofDirectory
  listed := by
    intro isFine
    have isFine := sameFine.mpr isFine
    obtain ⟨items, skipped, added, counted, listed, unnamed⟩ :=
      accounts.listed isFine
    refine ⟨items, skipped, added, counted, ?_, unnamed⟩
    intro path
    rw [← same isFine, listed]

end Accounts

variable {pathId : String → Int} {disk : Disk}

theorem accounts_meetFile (path : String) (size : Nat)
    (outcome : ScanOutcome) :
    Accounts library True (fun other =>
        other = path ∧ hasMediaExtension path library.kind = true)
      outcome (meetFile pathId library path size outcome) := by
  rw [meetFile]
  cases media : hasMediaExtension path library.kind with
  | false =>
    simp only [Bool.not_false, if_true]
    exact (Accounts.nothing outcome).congr Iff.rfl (by simp)
  | true =>
    simp only [Bool.not_true, Bool.false_eq_true, if_false, and_true]
    cases named : specFor library.path path library.kind with
    | some spec =>
      refine ⟨le_refl _, by simp, ?_, ?_⟩
      · intro item member
        refine (List.mem_append.mp member).imp_right fun new => ?_
        rw [List.mem_singleton.mp new]
        rfl
      intro _
      refine ⟨[discovered pathId library path size spec], [], rfl, rfl, ?_,
        by simp⟩
      intro other
      simp [discovered, eq_comm]
    | none =>
      refine ⟨le_refl _, by simp, fun _ => .inl, ?_⟩
      intro _
      refine ⟨[], [path], by simp, rfl, by simp, ?_⟩
      intro other member
      rw [List.mem_singleton.mp member]
      exact named

/-- What is seen through one name of a listing. -/
def SeenAt (disk : Disk) (kind : LibraryKind) (dir name path : String) :
    Prop :=
  hidden name = false ∧
    (path = Rust.Path.join dir name ∧ SeesFile disk path ∧
        hasMediaExtension path kind = true ∨
      meet disk (Rust.Path.join dir name) = .dir ∧
        MediaBelow disk kind (SeesFile disk) (Rust.Path.join dir name) path)

/-- Nothing is left out through one name of a listing, with `levels` left. -/
def FineAt (disk : Disk) (levels : Nat) (dir name : String) : Prop :=
  hidden name = false →
    meet disk (Rust.Path.join dir name) ≠ .failed ∧
      (meet disk (Rust.Path.join dir name) = .dir →
        CleanBelow disk levels (Rust.Path.join dir name))

section Walk

variable {levels : Nat} {dir : String}
  {descend : String → ScanOutcome → Except ScanError ScanOutcome}
  (descends : ∀ path before after, descend path before = .ok after →
    Accounts library (CleanBelow disk levels path)
      (MediaBelow disk library.kind (SeesFile disk) path) before after)

include descends

theorem accounts_walkEntry {yielded : Yield}
    (ended : walkEntry pathId disk library descend dir outcome yielded =
      .ok after) :
    Accounts library
      (∃ name, yielded = .name name ∧ FineAt disk levels dir name)
      (fun path => ∃ name, yielded = .name name ∧
        SeenAt disk library.kind dir name path) outcome after := by
  cases yielded with
  | error error lost =>
    cases ended
    exact (Accounts.cut outcome).congr (by simp) False.elim
  | name name =>
    simp only [Yield.name.injEq, exists_eq_left']
    rw [walkEntry] at ended
    cases shown : hidden name with
    | true =>
      simp only [shown, if_true] at ended
      cases ended
      exact (Accounts.nothing outcome).congr (by simp [FineAt, shown])
        (by simp [SeenAt, shown])
    | false =>
      simp only [shown, Bool.false_eq_true, if_false] at ended
      split at ended
      case h_1 met =>
          cases ended
          exact (Accounts.cut outcome).congr (by simp [FineAt, shown, met])
            False.elim
      case h_2 met =>
          cases ended
          refine (Accounts.nothing outcome).congr
            (by simp [FineAt, shown, met]) ?_
          intro _ path
          constructor
          · exact False.elim
          · intro seen
            rcases seen with ⟨_, ⟨rfl, ⟨size, sees⟩, _⟩ | ⟨isDir, _⟩⟩
            · cases met.symm.trans sees
            · cases met.symm.trans isDir
      case h_3 met =>
          refine (descends _ _ _ ended).congr
            (by simp [FineAt, shown, met]) ?_
          intro _ path
          constructor
          · intro below
            exact ⟨shown, Or.inr ⟨met, below⟩⟩
          · intro seen
            rcases seen with ⟨_, ⟨rfl, ⟨size, sees⟩, _⟩ | ⟨_, below⟩⟩
            · cases met.symm.trans sees
            · exact below
      case h_4 size met =>
          cases ended
          refine (accounts_meetFile _ size outcome).congr
            (by simp [FineAt, shown, met]) ?_
          intro _ path
          constructor
          · intro isFile
            obtain ⟨rfl, media⟩ := isFile
            exact ⟨shown, Or.inl ⟨rfl, ⟨size, met⟩, media⟩⟩
          · intro seen
            rcases seen with ⟨_, ⟨rfl, _, media⟩ | ⟨isDir, _⟩⟩
            · exact ⟨rfl, media⟩
            · cases met.symm.trans isDir

theorem accounts_foldlM {yields : List Yield}
    (ended : yields.foldlM (walkEntry pathId disk library descend dir)
      outcome = .ok after) :
    Accounts library
      (∀ yielded ∈ yields, ∃ name, yielded = .name name ∧
        FineAt disk levels dir name)
      (fun path => ∃ name, .name name ∈ yields ∧
        SeenAt disk library.kind dir name path) outcome after := by
  induction yields generalizing outcome with
  | nil =>
    cases ended
    exact (Accounts.nothing _).congr (by simp) (by simp)
  | cons yielded yields ih =>
    rw [List.foldlM_cons] at ended
    obtain ⟨middle, first, rest⟩ := Rust.bind_eq_ok ended
    refine ((accounts_walkEntry descends first).trans (ih rest)).congr ?_ ?_
    · simp only [List.forall_mem_cons]
    · intro _ path
      constructor
      · intro seen
        rcases seen with ⟨name, rfl, seen⟩ | ⟨name, member, seen⟩
        · exact ⟨name, List.mem_cons_self, seen⟩
        · exact ⟨name, List.mem_cons_of_mem _ member, seen⟩
      · intro seen
        obtain ⟨name, member, seen⟩ := seen
        rcases List.mem_cons.mp member with same | later
        · exact Or.inl ⟨name, same.symm, seen⟩
        · exact Or.inr ⟨name, later, seen⟩

end Walk

end Accounts

variable {pathId : String → Int} {disk : Disk} {library : LibraryConfig}

theorem answer_eq_ok {α : Type} {fault : Option Fault} {there : Option α}
    {value : α} :
    answer fault there = .ok value ↔ fault = none ∧ there = some value := by
  cases fault <;> cases there <;> simp [answer]

theorem entry_of_meet_dir {path : String} (met : meet disk path = .dir) :
    disk.entry path = some (.node .dir) := by
  rw [meet] at met
  split at met
  case h_3 => split at met <;> cases met
  case h_4 looked => exact (answer_eq_ok.mp looked).2
  all_goals cases met

theorem meet_dir_of_entry {path : String}
    (there : disk.entry path = some (.node .dir))
    (looked : meet disk path ≠ .failed) : meet disk path = .dir := by
  rw [meet, Disk.lstat, there] at looked ⊢
  cases fault : disk.entryFault path with
  | some fault' => simp [fault, answer] at looked
  | none => rfl

theorem listing_of_readDir {dir : String} {yields : List Yield}
    (opened : disk.readDir dir = .ok yields) :
    disk.held dir = yields.flatMap Yield.names := by
  rw [Disk.held, (answer_eq_ok.mp opened).2, Option.getD_some]

theorem mem_held_of_yielded {dir : String} {yields : List Yield}
    (opened : disk.readDir dir = .ok yields) {name : String}
    (member : Yield.name name ∈ yields) : name ∈ disk.held dir := by
  rw [listing_of_readDir opened]
  exact List.mem_flatMap.mpr ⟨_, member, List.mem_singleton.mpr rfl⟩

theorem yielded_of_mem_held {dir : String} {yields : List Yield}
    (opened : disk.readDir dir = .ok yields)
    (faultless : ∀ error lost, Yield.error error lost ∉ yields)
    {name : String} (held : name ∈ disk.held dir) :
    Yield.name name ∈ yields := by
  rw [listing_of_readDir opened] at held
  obtain ⟨yielded, member, named⟩ := List.mem_flatMap.mp held
  cases yielded with
  | error error lost => exact absurd member (faultless error lost)
  | name other =>
    rw [List.mem_singleton.mp named]
    exact member

theorem CleanBelow.dir {levels : Nat} {dir : String}
    (clean : CleanBelow disk levels dir) : Clean disk dir :=
  (clean 0 dir .here).2

/-- A directory is clean all the way down when every step through its listing
is. -/
theorem cleanBelow_iff {levels : Nat} {dir : String} {yields : List Yield}
    (opened : disk.readDir dir = .ok yields) :
    CleanBelow disk (levels + 1) dir ↔
      ∀ yielded ∈ yields, ∃ name, yielded = .name name ∧
        FineAt disk levels dir name := by
  constructor
  · intro clean yielded member
    obtain ⟨yields', opened', faultless⟩ := clean.dir.listed
    cases opened.symm.trans opened'
    cases yielded with
    | error error lost => exact absurd member (faultless error lost)
    | name name =>
      have held := mem_held_of_yielded opened member
      refine ⟨name, rfl, ?_⟩
      intro shown
      refine ⟨clean.dir.looked name held shown, ?_⟩
      intro met depth sub reaches
      obtain ⟨within, subClean⟩ := clean (depth + 1) sub
        (.deeper held shown (entry_of_meet_dir met) reaches)
      exact ⟨by omega, subClean⟩
  · intro fine
    have faultless : ∀ error lost, Yield.error error lost ∉ yields := by
      intro error lost member
      obtain ⟨name, same, _⟩ := fine _ member
      cases same
    have through : ∀ name ∈ disk.held dir, FineAt disk levels dir name := by
      intro name held
      obtain ⟨other, same, fineAt⟩ :=
        fine _ (yielded_of_mem_held opened faultless held)
      cases same
      exact fineAt
    intro depth sub reaches
    rcases reaches_iff.mp reaches with ⟨rfl, rfl⟩ | ⟨name, further, rfl, held,
      shown, there, reaches⟩
    · refine ⟨Nat.succ_pos _, ⟨⟨yields, opened, faultless⟩, ?_⟩⟩
      intro name held shown
      exact (through name held shown).1
    · obtain ⟨looked, below⟩ := through name held shown
      obtain ⟨within, subClean⟩ :=
        below (meet_dir_of_entry there looked) further sub reaches
      exact ⟨by omega, subClean⟩

/-- What is seen below a clean directory is what is seen through its
listing. -/
theorem mediaBelow_iff {kind : LibraryKind} {dir path : String}
    {yields : List Yield} (opened : disk.readDir dir = .ok yields)
    (clean : Clean disk dir) :
    MediaBelow disk kind (SeesFile disk) dir path ↔
      ∃ name, .name name ∈ yields ∧ SeenAt disk kind dir name path := by
  obtain ⟨yields', opened', faultless⟩ := clean.listed
  cases opened.symm.trans opened'
  constructor
  · intro below
    obtain ⟨depth, sub, name, reaches, held, shown, same, sees, media⟩ := below
    rcases reaches_iff.mp reaches with ⟨rfl, rfl⟩ | ⟨first, further, rfl, held',
      shown', there, reaches⟩
    · refine ⟨name, yielded_of_mem_held opened faultless held, shown, Or.inl ?_⟩
      exact ⟨same, sees, media⟩
    · refine ⟨first, yielded_of_mem_held opened faultless held', shown',
        Or.inr ⟨?_, ?_⟩⟩
      · exact meet_dir_of_entry there (clean.looked first held' shown')
      · exact ⟨further, sub, name, reaches, held, shown, same, sees, media⟩
  · intro seen
    obtain ⟨name, member, shown, seen⟩ := seen
    have held := mem_held_of_yielded opened member
    rcases seen with ⟨same, sees, media⟩ | ⟨met, below⟩
    · exact ⟨0, dir, name, .here, held, shown, same, sees, media⟩
    · obtain ⟨depth, sub, last, reaches, below⟩ := below
      exact ⟨depth + 1, sub, last,
        .deeper held shown (entry_of_meet_dir met) reaches, below⟩

theorem accounts_walk (levels : Nat) (dir : String)
    (outcome after : ScanOutcome)
    (ended : walk pathId disk library levels dir outcome = .ok after) :
    Accounts library (CleanBelow disk levels dir)
      (MediaBelow disk library.kind (SeesFile disk) dir) outcome after := by
  induction levels generalizing dir outcome after with
  | zero =>
    cases ended
    refine (Accounts.cut outcome).congr ?_ False.elim
    constructor
    · exact False.elim
    · intro clean
      exact absurd (clean 0 dir .here).1 (Nat.lt_irrefl 0)
  | succ levels ih =>
    rw [walk] at ended
    cases opened : disk.readDir dir with
    | error error =>
      simp only [opened] at ended
      split at ended
      case isTrue =>
          cases ended
          refine (Accounts.cut outcome).congr ?_ False.elim
          constructor
          · exact False.elim
          · intro clean
            obtain ⟨yields, opened', _⟩ := clean.dir.listed
            cases opened.symm.trans opened'
      case isFalse => cases ended
    | ok yields =>
      simp only [opened] at ended
      have sameFine : (∀ yielded ∈ yields, ∃ name, yielded = .name name ∧
          FineAt disk levels dir name) ↔
            CleanBelow disk (levels + 1) dir :=
        (cleanBelow_iff opened).symm
      have accounts : Accounts library
          (∀ yielded ∈ yields, ∃ name, yielded = .name name ∧
            FineAt disk levels dir name) _ outcome after :=
        accounts_foldlM ih ended
      refine accounts.congr sameFine ?_
      intro fine path
      exact (mediaBelow_iff opened (sameFine.mp fine).dir).symm

theorem foldlM_ok {ε State Input : Type} {step : State → Input → Except ε State}
    (each : ∀ state input, ∃ next, step state input = .ok next)
    (inputs : List Input) (state : State) :
    ∃ last, inputs.foldlM step state = .ok last := by
  induction inputs generalizing state with
  | nil => exact ⟨state, rfl⟩
  | cons input inputs ih =>
    obtain ⟨next, stepped⟩ := each state input
    rw [List.foldlM_cons, stepped]
    exact ih next

theorem walkEntry_ok
    {descend : String → ScanOutcome → Except ScanError ScanOutcome}
    (descends : ∀ path outcome, ∃ after, descend path outcome = .ok after)
    (dir : String) (outcome : ScanOutcome) (yielded : Yield) :
    ∃ after, walkEntry pathId disk library descend dir outcome yielded =
      .ok after := by
  cases yielded with
  | error error lost => exact ⟨_, rfl⟩
  | name name =>
    rw [walkEntry]
    split
    · exact ⟨_, rfl⟩
    · split
      case h_3 => exact descends _ _
      all_goals exact ⟨_, rfl⟩

theorem walk_ok {levels : Nat} (within : levels ≤ maxDepth) (dir : String)
    (outcome : ScanOutcome) :
    ∃ after, walk pathId disk library levels dir outcome = .ok after := by
  induction levels generalizing dir outcome with
  | zero => exact ⟨_, rfl⟩
  | succ levels ih =>
    rw [walk]
    cases disk.readDir dir with
    | error error => exact ⟨outcome.cut, by simp [Nat.lt_of_succ_le within]⟩
    | ok yields =>
      exact foldlM_ok (walkEntry_ok (ih (Nat.le_of_succ_le within)) dir)
        yields outcome

theorem walk_root_ok {dir : String} {yields : List Yield}
    (opened : disk.readDir dir = .ok yields) (outcome : ScanOutcome) :
    ∃ after, walk pathId disk library (maxDepth + 1) dir outcome =
      .ok after := by
  rw [walk, opened]
  exact foldlM_ok (walkEntry_ok (walk_ok (le_refl maxDepth)) dir) yields outcome

/-- A root that is there, a directory, and not empty. -/
structure Opens (disk : Disk) (library : LibraryConfig) : Prop where
  absolute : library.path.toList.head? = some '/'
  isDir : disk.stat library.path = .ok .dir
  something : ∃ first rest, disk.probe = .ok (first :: rest)

def sorted (outcome : ScanOutcome) : ScanOutcome :=
  { outcome with
    items := outcome.items.mergeSort fun left right =>
      pathLe left.arrPath right.arrPath }

theorem scan_eq_ok_iff {outcome : ScanOutcome} :
    scan pathId disk library = .ok outcome ↔
      Opens disk library ∧ ∃ walked,
        walk pathId disk library (maxDepth + 1) library.path .empty =
          .ok walked ∧ outcome = sorted walked := by
  constructor
  · intro ended
    rw [scan] at ended
    split at ended
    case isTrue => cases ended
    case isFalse absolute =>
        split at ended
        case h_1 => cases ended
        case h_2 => cases ended
        case h_3 node isNode =>
            split at ended
            case isTrue => cases ended
            case isFalse isDir =>
                split at ended
                case h_1 => cases ended
                case h_2 => cases ended
                case h_3 first rest probed =>
                    obtain ⟨walked, walks, ended⟩ := Rust.bind_eq_ok ended
                    cases ended
                    rw [not_not] at absolute isDir
                    subst isDir
                    exact ⟨⟨absolute, isNode, first, rest, probed⟩, walked,
                      walks, rfl⟩
  · intro ends
    obtain ⟨⟨absolute, isDir, first, rest, probed⟩, walked, walks, rfl⟩ := ends
    simp only [scan, absolute, isDir, probed, walks, ne_eq, not_true_eq_false,
      if_false]
    rfl

/-- The files a scan leaves out are counted, and nothing else is missing. -/
structure IsComplete (disk : Disk) (library : LibraryConfig)
    (outcome : ScanOutcome) : Prop where
  listed : ∃ skipped : List String, skipped.length = outcome.skipped ∧
    (∀ path ∈ skipped, specFor library.path path library.kind = none ∧
      MediaBelow disk library.kind (LeadsToFile disk) library.path path) ∧
    ∀ path, MediaBelow disk library.kind (LeadsToFile disk) library.path path →
      path ∈ skipped ∨ ∃ item ∈ outcome.items, item.arrPath = path
  /-- No operation failed on anything, but for what was not there any more. -/
  undropped : ∀ depth dir, Reaches disk library.path depth dir →
    (∃ yields, disk.readDir dir = .ok yields ∧
      ∀ error lost, Yield.error error lost ∉ yields) ∧
    ∀ name ∈ disk.held dir, hidden name = false →
      (∀ fault, disk.lstat (Rust.Path.join dir name) ≠
        .error (.fault fault)) ∧
      (disk.lstat (Rust.Path.join dir name) = .ok .symlink →
        ∀ fault, disk.stat (Rust.Path.join dir name) ≠ .error (.fault fault))

/-- No link the walk meets fails to be followed, but for those whose target is
not there. -/
def LinksResolve (disk : Disk) (root : String) : Prop :=
  ∀ depth dir, Reaches disk root depth dir →
    ∀ name ∈ disk.held dir, hidden name = false →
      disk.lstat (Rust.Path.join dir name) = .ok .symlink →
        ∀ fault, disk.stat (Rust.Path.join dir name) ≠ .error (.fault fault)

theorem meet_ne_failed_iff {path : String} :
    meet disk path ≠ .failed ↔
      ∀ fault, disk.lstat path ≠ .error (.fault fault) := by
  rw [meet]
  split
  case h_1 gone => simp [gone]
  case h_2 failed => simp [failed]
  case h_3 looked =>
      rw [looked]
      split <;> simp
  case h_4 looked => simp [looked]
  case h_5 looked => simp [looked]
  case h_6 looked => simp [looked]

theorem LeadsToFile.of_sees {path : String} (sees : SeesFile disk path) :
    LeadsToFile disk path := by
  obtain ⟨size, met⟩ := sees
  rw [meet] at met
  split at met
  case h_3 looked =>
      split at met
      case h_2 followed =>
          cases met
          exact ⟨size, Or.inr ⟨(answer_eq_ok.mp looked).2,
            (answer_eq_ok.mp followed).2⟩⟩
      all_goals cases met
  case h_5 looked =>
      cases met
      exact ⟨size, Or.inl (answer_eq_ok.mp looked).2⟩
  all_goals cases met

theorem answer_of_there {α : Type} {fault : Option Fault} {value : α}
    (faultless : ∀ met, answer fault (some value) ≠ .error (.fault met)) :
    answer fault (some value) = .ok value := by
  cases fault with
  | some met => exact absurd rfl (faultless met)
  | none => rfl

theorem sees_of_leadsToFile {path : String} (leads : LeadsToFile disk path)
    (looked : ∀ fault, disk.lstat path ≠ .error (.fault fault))
    (followed : disk.lstat path = .ok .symlink →
      ∀ fault, disk.stat path ≠ .error (.fault fault)) :
    SeesFile disk path := by
  obtain ⟨size, there | ⟨there, target⟩⟩ := leads
  · refine ⟨size, ?_⟩
    have isFile : disk.lstat path = .ok (.node (.file size)) := by
      rw [Disk.lstat, there] at looked ⊢
      exact answer_of_there looked
    simp only [meet, isFile]
  · refine ⟨size, ?_⟩
    have isLink : disk.lstat path = .ok .symlink := by
      rw [Disk.lstat, there] at looked ⊢
      exact answer_of_there looked
    have isFile : disk.stat path = .ok (.file size) := by
      have faultless := followed isLink
      rw [Disk.stat, target] at faultless ⊢
      exact answer_of_there faultless
    simp only [meet, isLink, isFile]

/-- A scan ends with nothing counted as incomplete exactly when its root opens
and every directory below is clean. -/
theorem scan_whole_iff :
    (∃ outcome, scan pathId disk library = .ok outcome ∧
        outcome.incomplete = 0) ↔
      Opens disk library ∧
        CleanBelow disk (maxDepth + 1) library.path := by
  constructor
  · intro ends
    obtain ⟨outcome, ended, whole⟩ := ends
    obtain ⟨opens, walked, walks, rfl⟩ := scan_eq_ok_iff.mp ended
    exact ⟨opens, (accounts_walk _ _ _ _ walks).whole.mp whole⟩
  · intro clean
    obtain ⟨opens, clean⟩ := clean
    obtain ⟨yields, opened, _⟩ := clean.dir.listed
    obtain ⟨walked, walks⟩ : ∃ walked, walk pathId disk library
        (maxDepth + 1) library.path .empty = .ok walked :=
      walk_root_ok opened .empty
    refine ⟨sorted walked, scan_eq_ok_iff.mpr ⟨opens, walked, walks, rfl⟩, ?_⟩
    exact (accounts_walk _ _ _ _ walks).whole.mpr clean

theorem source_of_scan {outcome : ScanOutcome} {item : Discovered}
    (ended : scan pathId disk library = .ok outcome)
    (member : item ∈ outcome.items) : item.source = .directory := by
  obtain ⟨-, walked, walks, rfl⟩ := scan_eq_ok_iff.mp ended
  rw [sorted, List.mem_mergeSort] at member
  have own := (accounts_walk _ _ _ _ walks).ofDirectory item member
  exact own.resolve_left List.not_mem_nil

/-- A scan that counts nothing as incomplete is complete, unless a link could
not be followed. -/
theorem complete_iff_links_resolve (pathId : String → Int) (disk : Disk)
    (library : LibraryConfig) :
    (∀ outcome, scan pathId disk library = .ok outcome →
        outcome.incomplete = 0 → IsComplete disk library outcome) ↔
      LinksResolve disk library.path ∨
        ¬ (Opens disk library ∧
          CleanBelow disk (maxDepth + 1) library.path) := by
  constructor
  · intro complete
    by_cases clean : Opens disk library ∧
      CleanBelow disk (maxDepth + 1) library.path
    · left
      obtain ⟨outcome, ended, whole⟩ := scan_whole_iff.mpr clean
      intro depth dir reaches name held shown
      exact (((complete outcome ended whole).undropped depth dir reaches).2
        name held shown).2
    · exact Or.inr clean
  · intro resolve outcome ended whole
    have clean := scan_whole_iff.mp ⟨outcome, ended, whole⟩
    have links := resolve.resolve_right (not_not_intro clean)
    obtain ⟨opens, clean⟩ := clean
    have looked : ∀ depth dir, Reaches disk library.path depth dir →
        ∀ name ∈ disk.held dir, hidden name = false → ∀ fault,
          disk.lstat (Rust.Path.join dir name) ≠ .error (.fault fault) := by
      intro depth dir reaches name held shown
      exact meet_ne_failed_iff.mp
        ((clean depth dir reaches).2.looked name held shown)
    obtain ⟨_, walked, walks, rfl⟩ := scan_eq_ok_iff.mp ended
    obtain ⟨items, skipped, added, counted, listed, unnamed⟩ :=
      (accounts_walk _ _ _ _ walks).listed clean
    constructor
    · refine ⟨skipped, ?_, ?_, ?_⟩
      · rw [sorted, counted, ScanOutcome.empty, Nat.zero_add]
      · intro path member
        obtain ⟨depth, sub, name, reaches, held, shown, same, sees, media⟩ :=
          (listed path).mpr (Or.inl member)
        exact ⟨unnamed path member, depth, sub, name, reaches, held, shown,
          same, .of_sees sees, media⟩
      · intro path media
        obtain ⟨depth, sub, name, reaches, held, shown, rfl, leads, media⟩ :=
          media
        have sees := sees_of_leadsToFile leads
          (looked depth sub reaches name held shown)
          (links depth sub reaches name held shown)
        have found := (listed _).mp
          ⟨depth, sub, name, reaches, held, shown, rfl, sees, media⟩
        rcases found with left | ⟨item, member, same⟩
        · exact Or.inl left
        · refine Or.inr ⟨item, ?_, same⟩
          rw [sorted, List.mem_mergeSort, added]
          exact List.mem_append_right _ member
    · intro depth dir reaches
      refine ⟨(clean depth dir reaches).2.listed, ?_⟩
      intro name held shown
      exact ⟨looked depth dir reaches name held shown,
        links depth dir reaches name held shown⟩

/-- A film, and a link to a second one that may not be looked at. -/
def linked : Disk where
  listing := fun dir =>
    if dir = "/films" then
      some [.name "Ferry.2019.mkv", .name "Harbour.2020.mkv"]
    else none
  openFault := fun _ => none
  entry := fun path =>
    if path = "/films/Ferry.2019.mkv" then some (.node (.file 1))
    else if path = "/films/Harbour.2020.mkv" then some .symlink
    else none
  entryFault := fun _ => none
  target := fun path =>
    if path = "/films" then some .dir else some (.file 1)
  targetFault := fun path =>
    if path = "/films/Harbour.2020.mkv" then some .permissionDenied else none
  probe := .ok [.name "Ferry.2019.mkv", .name "Harbour.2020.mkv"]

def films : LibraryConfig := ⟨"/films", .movie⟩

/-- The linked film is neither listed nor counted. -/
theorem linked_film_dropped :
    ∃ outcome, scan (fun _ => 0) linked films = .ok outcome ∧
      outcome.incomplete = 0 ∧ outcome.skipped = 0 ∧
      outcome.items.map (·.arrPath) = ["/films/Ferry.2019.mkv"] ∧
      MediaBelow linked .movie (LeadsToFile linked) "/films"
        "/films/Harbour.2020.mkv" ∧
      ¬ IsComplete linked films outcome := by
  obtain ⟨outcome, ended, report⟩ := Rust.of_toOption_map
    (show ((scan (fun _ => 0) linked films).map fun outcome =>
        (outcome.incomplete, outcome.skipped,
          outcome.items.map (·.arrPath))).toOption =
      some (0, 0, ["/films/Ferry.2019.mkv"]) by decide +kernel)
  obtain ⟨incomplete, report⟩ := Prod.mk.inj report
  obtain ⟨skipped, items⟩ := Prod.mk.inj report
  refine ⟨outcome, ended, incomplete, skipped, items, ?_, ?_⟩
  · exact ⟨0, "/films", "Harbour.2020.mkv", .here, by decide, by decide,
      by decide +kernel, ⟨1, Or.inr ⟨by decide, by decide⟩⟩, by decide +kernel⟩
  intro complete
  have link := ((complete.undropped 0 "/films" .here).2 "Harbour.2020.mkv"
    (by decide) (by decide)).2 (by decide)
  exact link .permissionDenied (by decide)

end Scan

end Sharerr
