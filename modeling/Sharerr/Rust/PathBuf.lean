import Sharerr.Rust.Path

/-!
# Paths by their components

All that comparing, stripping and joining see of a path are its components.  The
root and a leading `.` stand in front of the others.
-/

namespace Rust

/-- A component that stands in front only. -/
def Path.Component.isLeading : Path.Component → Bool
  | .root | .current => true
  | _ => false

structure PathBuf where
  components : List Path.Component
  inner : ∀ component ∈ components.tail, component.isLeading = false
deriving DecidableEq

namespace PathBuf

theorem isLeading_of_component {piece : String} {made : Path.Component}
    (component : Path.component piece = some made) :
    made.isLeading = false := by
  unfold Path.component at component
  split at component <;> cases component <;> rfl

def ofText (text : String) : PathBuf where
  components := Path.components text
  inner := by
    intro component member
    have plain : ∀ component ∈ (splitSlashes text.toList []).filterMap
        Path.component, component.isLeading = false := by
      intro component member
      obtain ⟨piece, -, made⟩ := List.mem_filterMap.mp member
      exact isLeading_of_component made
    rw [Path.components] at member
    split at member
    · exact plain component member
    · exact plain component member
    · exact plain component (List.mem_of_mem_tail member)

def isAbsolute (path : PathBuf) : Bool :=
  decide (path.components.head? = some .root)

/-- `Path::strip_prefix`. -/
def stripPrefix (path base : PathBuf) : Option PathBuf :=
  if base.components.isPrefixOf path.components then
    some ⟨path.components.drop base.components.length, fun component member =>
      path.inner component (List.mem_of_mem_drop (by
        rw [List.tail_drop] at member
        rw [List.drop_tail]
        exact member) : component ∈ path.components.tail)⟩
  else none

/-- The components of a joined path: an absolute one replaces the base, and a
leading `.` counts only without one. -/
def joined (base : List Path.Component) :
    List Path.Component → List Path.Component
  | .root :: rest => .root :: rest
  | .current :: rest =>
    if base = [] then .current :: rest else base ++ rest
  | rest => base ++ rest

theorem inner_append {base rest : List Path.Component}
    (left : ∀ component ∈ base.tail, component.isLeading = false)
    (right : ∀ component ∈ rest, component.isLeading = false) :
    ∀ component ∈ (base ++ rest).tail, component.isLeading = false := by
  intro component member
  cases base with
  | nil => exact right component (List.mem_of_mem_tail member)
  | cons first base =>
    rcases List.mem_append.mp member with here | later
    · exact left component here
    · exact right component later

/-- `Path::join`. -/
def join (base rest : PathBuf) : PathBuf where
  components := joined base.components rest.components
  inner := by
    obtain ⟨rest, inner⟩ := rest
    simp only
    unfold joined
    split
    · exact inner
    · split
      · exact inner
      · exact inner_append base.inner inner
    · next notRoot notCurrent =>
        refine inner_append base.inner fun component member => ?_
        cases rest with
        | nil => cases member
        | cons first rest =>
          rcases List.mem_cons.mp member with same | later
          · rw [same]
            cases first with
            | root => exact absurd rfl (notRoot rest)
            | current => exact absurd rfl (notCurrent rest)
            | parent => rfl
            | normal name => rfl
          · exact inner component later

/-- A path of which no component leads can be put after any other. -/
def Plain (path : PathBuf) : Prop :=
  ∀ component ∈ path.components, component.isLeading = false

section Components

variable {path base rest : PathBuf}

@[ext] theorem ext {left right : PathBuf}
    (same : left.components = right.components) : left = right := by
  cases left
  cases right
  cases same
  rfl

theorem components_join (plain : rest.Plain) :
    (base.join rest).components = base.components ++ rest.components := by
  rw [join]
  dsimp only
  unfold joined
  split
  · next found => exact absurd (plain _ (by rw [found]; exact
      List.mem_cons_self)) (by decide)
  · next found => exact absurd (plain _ (by rw [found]; exact
      List.mem_cons_self)) (by decide)
  · rfl

/-- An absolute path replaces what it is joined to. -/
theorem join_of_isAbsolute (absolute : rest.isAbsolute = true) :
    base.join rest = rest := by
  apply ext
  rw [isAbsolute, decide_eq_true_eq] at absolute
  obtain ⟨later, found⟩ := List.head?_eq_some_iff.mp absolute
  rw [join]
  dsimp only
  rw [found]
  rfl

theorem stripPrefix_eq_some : path.stripPrefix base = some rest ↔
    path.components = base.components ++ rest.components := by
  rw [stripPrefix]
  constructor
  · intro stripped
    split at stripped
    · next inFront =>
        obtain ⟨later, whole⟩ := List.isPrefixOf_iff_prefix.mp inFront
        cases stripped
        dsimp only
        rw [← whole, List.drop_left]
    · cases stripped
  · intro whole
    have inFront : base.components.isPrefixOf path.components = true :=
      List.isPrefixOf_iff_prefix.mpr ⟨rest.components, whole.symm⟩
    rw [if_pos inFront, Option.some.injEq]
    apply ext
    dsimp only
    rw [whole, List.drop_left]

/-- What is stripped off an absolute path is absolute, or leaves a plain one. -/
theorem absolute_or_plain (absolute : path.isAbsolute = true)
    (whole : path.components = base.components ++ rest.components) :
    (base.components = [] ∧ rest = path) ∨
      (base.isAbsolute = true ∧ rest.Plain) := by
  cases base_ : base.components with
  | nil =>
    rw [base_, List.nil_append] at whole
    exact Or.inl ⟨rfl, ext whole.symm⟩
  | cons first others =>
    rw [base_] at whole
    have inner := path.inner
    rw [isAbsolute, decide_eq_true_eq, whole] at absolute
    rw [whole] at inner
    refine Or.inr ⟨?_, fun component member =>
      inner component (List.mem_append_right _ member)⟩
    rw [isAbsolute, decide_eq_true_eq, base_]
    exact absolute

theorem join_stripped (absolute : path.isAbsolute = true)
    (whole : path.components = base.components ++ rest.components) :
    base.join rest = path := by
  rcases absolute_or_plain absolute whole with ⟨-, same⟩ | ⟨-, plain⟩
  · rw [same]
    exact join_of_isAbsolute absolute
  · apply ext
    rw [components_join plain, whole]

end Components

end PathBuf

end Rust
