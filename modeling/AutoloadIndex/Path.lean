import AutoloadIndex.Text.Basic

set_option autoImplicit false

/-!
Paths are kept as they are spelled and compared by their components: repeated and trailing slashes
and inner `.` components make no difference, a leading `.` does.
-/

namespace AutoloadIndex

structure Path where
  spelling : String
deriving DecidableEq, Repr

namespace Path

inductive Component where
  | root
  | current
  | parent
  | normal (name : String)
deriving DecidableEq, Repr

namespace Component

/-- Components of different sorts are ordered by sort, names by their characters. -/
def order : Component → Component → Ordering
  | root, root => .eq
  | root, _ => .lt
  | current, root => .gt
  | current, current => .eq
  | current, _ => .lt
  | parent, normal _ => .lt
  | parent, parent => .eq
  | parent, _ => .gt
  | normal first, normal second => compare first second
  | normal _, _ => .gt

end Component

def pieces : List Char → List (List Char)
  | [] => [[]]
  | c :: rest =>
    if c = '/' then [] :: pieces rest
    else match pieces rest with
      | [] => [[c]]
      | piece :: more => (c :: piece) :: more

def inner? (piece : List Char) : Option Component :=
  if piece = [] ∨ piece = ['.'] then none
  else if piece = ['.', '.'] then some .parent
  else some (.normal (.ofList piece))

def components (path : Path) : List Component :=
  let parts := pieces path.spelling.toList
  let front : List Component := match parts with
    | [] :: _ :: _ => [.root]
    | ['.'] :: _ => [.current]
    | _ => []
  front ++ parts.filterMap inner?

/-- Whether two spellings name the same place. -/
def Same (first second : Path) : Prop := first.components = second.components

instance (first second : Path) : Decidable (first.Same second) :=
  inferInstanceAs (Decidable (first.components = second.components))

def order (first second : Path) : Ordering :=
  List.compareLex Component.order first.components second.components

/-- Name of the last component, if it is an ordinary one. -/
def fileName (path : Path) : Option String :=
  match path.components.getLast? with
  | some (.normal name) => some name
  | _ => none

/-- What follows the last dot of the file name; a dot in front of the whole name does not count. -/
def extension (path : Path) : Option String := do
  let name ← path.fileName
  let reversed := name.toList.reverse
  let after := reversed.takeWhile (· != '.')
  match reversed.drop after.length with
  | _ :: before => if before.isEmpty then none else some (.ofList after.reverse)
  | [] => none

def join (directory : Path) (name : String) : Path :=
  if name.startsWith "/" then ⟨name⟩
  else if directory.spelling.isEmpty ∨ directory.spelling.endsWith "/" then
    ⟨directory.spelling ++ name⟩
  else ⟨directory.spelling ++ "/" ++ name⟩

/-- Drops the slashes and `.` components in front of a reversed text, except what begins the
text. -/
def dropTrailing : List Char → List Char
  | '/' :: rest => if rest.isEmpty then ['/'] else dropTrailing rest
  | '.' :: '/' :: rest => if rest.isEmpty then ['/'] else dropTrailing rest
  | cs => cs

/-- The directory that holds the path, spelled as in the path; none of the root and of nothing. -/
def parent (path : Path) : Option Path :=
  match path.components.getLast? with
  | none | some .root => none
  | some _ =>
    let last := dropTrailing path.spelling.toList.reverse
    some ⟨.ofList (dropTrailing (last.dropWhile (· != '/'))).reverse⟩

end Path

end AutoloadIndex
