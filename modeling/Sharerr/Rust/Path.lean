import Mathlib.Data.List.TakeWhile
import Sharerr.Rust.Basic

/-!
# Unix paths

A path is its text.  Two texts are the same path when they have the same
components, so doubled and trailing separators and `.` segments do not count.
-/

namespace Rust

/-- `text` split at its slashes; `segment` is what was read of the current
piece, last character first. -/
@[simp] def splitSlashes : List Char → List Char → List String
  | [], segment => [String.ofList segment.reverse]
  | '/' :: rest, segment =>
    String.ofList segment.reverse :: splitSlashes rest []
  | character :: rest, segment => splitSlashes rest (character :: segment)

namespace Path

inductive Component where
  | root
  | current
  | parent
  | normal (name : String)
deriving DecidableEq, Repr

def component : String → Option Component
  | "" => none
  | "." => none
  | ".." => some .parent
  | name => some (.normal name)

/-- `Path::components`: a leading `.` is the only one that counts. -/
def components (text : String) : List Component :=
  let pieces := splitSlashes text.toList []
  let leading := match text.toList, pieces.head? with
    | '/' :: _, _ => [Component.root]
    | _, some "." => [Component.current]
    | _, _ => []
  leading ++ pieces.filterMap component

def same (left right : String) : Bool := components left = components right

/-- `Path::starts_with`. -/
def startsWith (path base : String) : Bool :=
  (components base).isPrefixOf (components path)

/-- `Path::join`: an absolute `rest` replaces the base. -/
def join (base rest : String) : String :=
  if rest.toList.head? = some '/' then rest
  else if base.toList.getLast?.all (· = '/') then base ++ rest
  else base ++ "/" ++ rest

/-- Text read backwards without its trailing separators and `.` segments. -/
def trimmedBack : List Char → List Char
  | ['/'] => ['/']
  | '/' :: rest => trimmedBack rest
  | '.' :: '/' :: rest => trimmedBack ('/' :: rest)
  | other => other

/-- `Path::parent`. -/
def parent (text : String) : Option String :=
  match (components text).getLast? with
  | none | some .root => none
  | some _ =>
    let rest := (trimmedBack text.toList.reverse).dropWhile (· ≠ '/')
    some (String.ofList (trimmedBack rest).reverse)

/-- `Path::file_name`. -/
def fileName (text : String) : Option String :=
  match (components text).getLast? with
  | some (.normal name) => some name
  | _ => none

theorem splitSlashes_append (left right segment : List Char) :
    splitSlashes (left ++ '/' :: right) segment =
      splitSlashes left segment ++ splitSlashes right [] := by
  induction left generalizing segment with
  | nil => rfl
  | cons character left ih =>
    by_cases slash : character = '/'
    · subst slash
      simp only [List.cons_append, splitSlashes, ih]
    · simp only [List.cons_append, splitSlashes, ih]

theorem splitSlashes_of_plain {text : List Char} (plain : '/' ∉ text)
    (segment : List Char) :
    splitSlashes text segment = [String.ofList (segment.reverse ++ text)] := by
  induction text generalizing segment with
  | nil => simp [splitSlashes]
  | cons character text ih =>
    have different : character ≠ '/' := by
      rintro rfl
      exact plain List.mem_cons_self
    rw [splitSlashes, ih (fun member =>
      plain (List.mem_cons_of_mem _ member))]
    · simp
    · simpa using different

theorem splitSlashes_ne_nil (text segment : List Char) :
    splitSlashes text segment ≠ [] := by
  induction text generalizing segment with
  | nil => simp [splitSlashes]
  | cons character text ih =>
    by_cases slash : character = '/'
    · subst slash
      simp [splitSlashes]
    · simpa [splitSlashes] using ih _

variable {segment front : List Char} {dir path name : String}

theorem plain_of_mem_splitSlashes {text : List Char} {piece : String}
    (plain : '/' ∉ segment) (member : piece ∈ splitSlashes text segment) :
    '/' ∉ piece.toList := by
  induction text generalizing segment with
  | nil =>
    rw [splitSlashes, List.mem_singleton] at member
    simpa [member] using plain
  | cons character text ih =>
    by_cases slash : character = '/'
    · subst slash
      rcases List.mem_cons.mp member with rfl | later
      · simpa using plain
      · exact ih (by simp) later
    · rw [splitSlashes] at member
      · exact ih (by simp [plain, Ne.symm slash]) member
      · simpa using slash

/-- A segment after a separator is one more component, if it is one at
all. -/
theorem components_segment (nonempty : front ≠ []) (plain : '/' ∉ segment) :
    components (String.ofList (front ++ '/' :: segment)) =
      components (String.ofList front) ++
        (component (String.ofList segment)).toList := by
  have whole : splitSlashes (front ++ '/' :: segment) [] =
      splitSlashes front [] ++ [String.ofList segment] := by
    rw [splitSlashes_append, splitSlashes_of_plain plain]
    rfl
  have last : [String.ofList segment].filterMap component =
      (component (String.ofList segment)).toList := by
    cases made : component (String.ofList segment) <;> simp [made]
  cases front with
  | nil => exact absurd rfl nonempty
  | cons character front =>
    cases pieces : splitSlashes (character :: front) [] with
    | nil => exact absurd pieces (splitSlashes_ne_nil _ _)
    | cons piece pieces' =>
      rw [pieces] at whole
      simp only [components, String.toList_ofList, List.cons_append] at *
      have parts : (piece :: (pieces' ++ [String.ofList segment])).filterMap
          component = (piece :: pieces').filterMap component ++
            (component (String.ofList segment)).toList := by
        rw [← last, ← List.filterMap_append, List.cons_append]
      rw [whole, pieces, parts, ← List.append_assoc]
      simp only [List.head?_cons]
      split <;> split <;> simp_all

theorem components_rooted (plain : '/' ∉ segment) :
    components (String.ofList ('/' :: segment)) =
      .root :: (component (String.ofList segment)).toList := by
  have first : component "" = none := rfl
  simp only [components, String.toList_ofList, splitSlashes,
    splitSlashes_of_plain plain, List.reverse_nil, List.nil_append,
    List.filterMap_cons, String.ofList_nil, first, List.filterMap_nil]
  cases component (String.ofList segment) <;> rfl

theorem components_separator (nonempty : front ≠ []) :
    components (String.ofList (front ++ ['/'])) =
      components (String.ofList front) := by
  rw [components_segment nonempty List.not_mem_nil]
  exact List.append_nil _

theorem components_trimmedBack (text : List Char) :
    components (String.ofList (trimmedBack text).reverse) =
      components (String.ofList text.reverse) := by
  fun_induction trimmedBack text with
  | case1 => rfl
  | case2 rest notAlone ih =>
    have nonempty : rest.reverse ≠ [] := by
      simpa using notAlone
    rw [ih, List.reverse_cons, components_separator nonempty]
  | case3 rest ih =>
    rw [ih]
    by_cases alone : rest = []
    · subst alone
      rfl
    · have nonempty : rest.reverse ≠ [] := by
        simpa using alone
      rw [List.reverse_cons, components_separator nonempty]
      have plain : '/' ∉ ['.'] := by decide
      have dot := components_segment nonempty plain
      have none_ : component (String.ofList ['.']) = none := rfl
      rw [none_, Option.toList_none, List.append_nil] at dot
      simpa using dot.symm
  | case4 => rfl

/-- What is trimmed does not end in a separator or a `.` segment. -/
theorem trimmedBack_trimmed (text : List Char) :
    trimmedBack text = ['/'] ∨
      (∀ rest, trimmedBack text ≠ '/' :: rest) ∧
        ∀ rest, trimmedBack text ≠ '.' :: '/' :: rest := by
  fun_induction trimmedBack text with
  | case1 => exact .inl rfl
  | case2 rest notAlone ih => exact ih
  | case3 rest ih => exact ih
  | case4 other notAlone noSlash noDot =>
    exact .inr ⟨fun rest same => noSlash rest same,
      fun rest same => noDot rest same⟩

theorem component_eq_none {text : String} (none_ : component text = none) :
    text = "" ∨ text = "." := by
  unfold component at none_
  split at none_
  · exact .inl rfl
  · exact .inr rfl
  · cases none_
  · cases none_

theorem components_plain (plain : '/' ∉ segment) {last : Component}
    (ends : (components (String.ofList segment)).getLast? = some last) :
    components (String.ofList segment) = [last] := by
  have short : (components (String.ofList segment)).length ≤ 1 := by
    by_cases dot : segment = ['.']
    · subst dot
      decide
    · have noRoot : segment.head? ≠ some '/' := by
        intro first
        exact plain (List.mem_of_head? first)
      have noDot : String.ofList segment ≠ "." := by
        intro same
        exact dot (by simpa using congrArg String.toList same)
      simp only [components, String.toList_ofList,
        splitSlashes_of_plain plain, List.reverse_nil, List.nil_append,
        List.head?_cons]
      split
      · exact absurd rfl noRoot
      · rename_i same
        exact absurd (Option.some.inj same) noDot
      · rw [List.nil_append]
        exact List.length_filterMap_le _ _
  match whole : components (String.ofList segment), short with
  | [], _ =>
    rw [whole] at ends
    cases ends
  | [only], _ =>
    rw [whole] at ends
    cases ends
    rfl

/-- The last segment of trimmed text is its last component. -/
theorem components_last (plain : '/' ∉ segment)
    (noSeparator : front ≠ [] → segment ≠ []) (noDot : segment ≠ ['.'])
    {last : Component}
    (ends : (components (String.ofList (front ++ '/' :: segment))).getLast? =
      some last) (noRoot : last ≠ .root) :
    components (String.ofList (front ++ '/' :: segment)) =
      components (String.ofList (front ++ ['/'])) ++ [last] := by
  have plainEnd : '/' ∉ ([] : List Char) := List.not_mem_nil
  have counted : ∀ found, component (String.ofList segment) = some found →
      components (String.ofList (front ++ '/' :: segment)) =
        components (String.ofList (front ++ ['/'])) ++ [found] := by
    intro found made
    by_cases alone : front = []
    · subst alone
      rw [List.nil_append, List.nil_append, components_rooted plain,
        components_rooted plainEnd, made]
      rfl
    · rw [components_segment alone plain, components_separator alone, made]
      rfl
  cases made : component (String.ofList segment) with
  | some found =>
    rw [counted found made, List.getLast?_concat] at ends
    cases ends
    exact counted _ made
  | none =>
    -- An empty segment ends the root, which is no component of a directory.
    have empty : segment = [] := by
      rcases component_eq_none made with same | same
      · simpa using congrArg String.toList same
      · exact absurd (by simpa using congrArg String.toList same) noDot
    have alone : front = [] := by
      by_contra nonempty
      exact noSeparator nonempty empty
    subst empty alone
    rw [List.nil_append, components_rooted plainEnd] at ends
    cases ends
    exact absurd rfl noRoot

theorem components_parent (found : parent path = some dir) :
    ∃ last, components path = components dir ++ [last] := by
  unfold parent at found
  split at found
  · cases found
  · cases found
  · rename_i last noRoot ends
    cases found
    have trimmed := components_trimmedBack path.toList.reverse
    rw [List.reverse_reverse, String.ofList_toList] at trimmed
    have shape := trimmedBack_trimmed path.toList.reverse
    rw [components_trimmedBack, ← trimmed]
    rw [← trimmed] at ends
    generalize trimmedBack path.toList.reverse = back at *
    have plain : '/' ∉ (back.takeWhile (· ≠ '/')).reverse := by
      intro member
      have differs := List.mem_takeWhile_imp (List.mem_reverse.mp member)
      simp at differs
    have halves : back.takeWhile (· ≠ '/') ++ back.dropWhile (· ≠ '/') =
        back := List.takeWhile_append_dropWhile
    generalize back.takeWhile (· ≠ '/') = segment at *
    cases rest : back.dropWhile (· ≠ '/') with
    | nil =>
      rw [rest, List.append_nil] at halves
      rw [halves] at plain
      exact ⟨last, components_plain plain ends⟩
    | cons character front =>
      have slash : character = '/' := by
        have first := List.head?_dropWhile_not (· ≠ '/') back
        rw [rest] at first
        simpa using first
      subst slash
      rw [rest] at halves
      subst halves
      have text : (segment ++ '/' :: front).reverse =
          front.reverse ++ '/' :: segment.reverse := by simp
      rw [text] at ends ⊢
      rw [List.reverse_cons]
      refine ⟨last, components_last plain ?_ ?_ ends noRoot⟩
      · intro nonempty empty
        rw [List.reverse_eq_nil_iff] at empty
        subst empty
        rcases shape with root | ⟨separated, -⟩
        · cases root
          exact nonempty rfl
        · exact separated front rfl
      · intro dot
        rw [List.reverse_eq_iff] at dot
        subst dot
        rcases shape with root | ⟨-, dotted⟩
        · cases root
        · exact dotted front rfl

/-- A name that is a component by itself. -/
structure IsName (name : String) : Prop where
  plain : '/' ∉ name.toList
  normal : component name = some (.normal name)

theorem eq_of_component {text : String}
    (made : component text = some (.normal name)) : text = name := by
  unfold component at made
  split at made
  · cases made
  · cases made
  · cases made
  · exact Component.normal.inj (Option.some.inj made)

theorem isName_of_fileName (found : fileName path = some name) :
    IsName name := by
  unfold fileName at found
  split at found
  · rename_i last ends
    cases found
    have member := List.mem_of_getLast? ends
    simp only [components, List.mem_append, List.mem_filterMap] at member
    rcases member with leading | ⟨piece, among, made⟩
    · split at leading
      · simp at leading
      · simp at leading
      · cases leading
    · obtain rfl := eq_of_component made
      exact ⟨plain_of_mem_splitSlashes List.not_mem_nil among, made⟩
  · cases found

theorem components_name (isName : IsName name) :
    components name = [.normal name] := by
  have noRoot : name.toList.head? ≠ some '/' := by
    intro first
    exact isName.plain (List.mem_of_head? first)
  have noDot : name ≠ "." := by
    rintro rfl
    cases isName.normal
  have pieces := splitSlashes_of_plain isName.plain []
  rw [List.reverse_nil, List.nil_append, String.ofList_toList] at pieces
  simp only [components, pieces, List.head?_cons]
  split
  · rename_i first
    rw [first] at noRoot
    exact absurd rfl noRoot
  · rename_i same _
    exact absurd (Option.some.inj same) noDot
  · simp [isName.normal]

theorem components_join (isName : IsName name) :
    components (join dir name) = components dir ++ [.normal name] := by
  have relative : name.toList.head? ≠ some '/' := by
    intro first
    exact isName.plain (List.mem_of_head? first)
  have last : (component (String.ofList name.toList)).toList =
      [.normal name] := by
    rw [String.ofList_toList, isName.normal]
    rfl
  have after : ∀ front : List Char, front ≠ [] →
      components (String.ofList (front ++ '/' :: name.toList)) =
        components (String.ofList front) ++ [.normal name] := by
    intro front nonempty
    rw [components_segment nonempty isName.plain, last]
  unfold join
  rw [if_neg relative]
  split
  · rename_i ends
    rcases List.eq_nil_or_concat dir.toList with empty | ⟨front, final, whole⟩
    · obtain rfl : dir = "" := by simpa using empty
      rw [String.empty_append, components_name isName]
      rfl
    · rw [List.concat_eq_append] at whole
      obtain rfl : final = '/' := by simpa [whole] using ends
      obtain rfl : dir = String.ofList (front ++ ['/']) := by
        rw [← whole, String.ofList_toList]
      have text : String.ofList (front ++ ['/']) ++ name =
          String.ofList (front ++ '/' :: name.toList) := by
        apply String.toList_injective
        simp
      rw [text]
      by_cases alone : front = []
      · subst alone
        rw [List.nil_append, List.nil_append, components_rooted isName.plain,
          components_rooted List.not_mem_nil, last]
        rfl
      · rw [after front alone, components_separator alone]
  · rename_i open_
    have nonempty : dir.toList ≠ [] := by
      intro empty
      simp [empty] at open_
    have text : dir ++ "/" ++ name =
        String.ofList (dir.toList ++ '/' :: name.toList) := by
      apply String.toList_injective
      simp
    rw [text, after _ nonempty, String.ofList_toList]

theorem components_of_parent (above : parent path = some dir)
    (named : fileName path = some name) :
    components path = components dir ++ [.normal name] := by
  obtain ⟨last, whole⟩ := components_parent above
  rw [whole]
  rw [fileName, whole, List.getLast?_concat] at named
  cases last with
  | normal other =>
    cases named
    rfl
  | _ => cases named

theorem same_join (above : parent path = some dir)
    (named : fileName path = some name) :
    same (join dir name) path = true := by
  rw [same, components_join (isName_of_fileName named),
    components_of_parent above named, decide_eq_true_iff]

/-- So is the file name in the directory's name in the directory above. -/
theorem same_join_join {root top : String} (above : parent path = some dir)
    (named : fileName path = some name) (aboveDir : parent dir = some top)
    (rooted : fileName dir = some root) :
    same (join (join top root) name) path = true := by
  rw [same, components_join (isName_of_fileName named),
    components_join (isName_of_fileName rooted),
    components_of_parent above named, components_of_parent aboveDir rooted,
    decide_eq_true_iff]

end Path

end Rust
