import AutoloadIndex.Path

set_option autoImplicit false

/-!
A file tree as a value: the entries at their places, and the directory that relative paths start
from. A place is the list of names that lead to it from the root. Paths are resolved name by name
and symbolic links are followed, so different paths may lead to one place.
-/

namespace AutoloadIndex

inductive FileError where
  | notFound
  | notDirectory
  | isDirectory
  | tooManyLinks
  | nameTooLong
  | zeroCharacter
  | cycle
  | notFile
  | invalidText
deriving DecidableEq, Repr

def FileError.message : FileError → String
  | notFound => "No such file or directory (os error 2)"
  | notDirectory => "Not a directory (os error 20)"
  | isDirectory => "Is a directory (os error 21)"
  | tooManyLinks => "Too many levels of symbolic links (os error 40)"
  | nameTooLong => "File name too long (os error 36)"
  | zeroCharacter => "file name contained an unexpected NUL byte"
  | cycle => "file system loop detected"
  | notFile => "expected a file, found a directory"
  | invalidText => "stream did not contain valid UTF-8"

inductive Entry where
  | file (content : List UInt8)
  | directory
  | link (target : Path)
deriving DecidableEq, Repr

abbrev Place := List String

/-- Paths of the files under a root, or a path at which the walk over them failed. -/
abbrev Walk := Path → Except (Path × FileError) (List Path)

structure FileTree where
  entries : List (Place × Entry) := []
  workingDirectory : Place := []
deriving DecidableEq, Repr

namespace FileTree

/-- The root is a directory even if no entry says so. -/
def entryAt (tree : FileTree) (place : Place) : Option Entry :=
  match place with
  | [] => some .directory
  | _ => (tree.entries.find? (·.1 = place)).map (·.2)

def isDirectory (tree : FileTree) (place : Place) : Bool := tree.entryAt place = some .directory

def names (path : Path) : List String :=
  ((Path.pieces path.spelling.toList).filter (!·.isEmpty)).map String.ofList

/-- Names to follow one after the other. A slash at the end adds an empty name, which asks for a
directory as `.` does. -/
def steps (path : Path) : List String :=
  if path.spelling.endsWith "/" then names path ++ [""] else names path

def isAbsolute (path : Path) : Bool := path.spelling.startsWith "/"

def nameLimit : Nat := 255

def pathLimit : Nat := 4096

def linkLimit : Nat := 40

/-- Follows names from a place, with a number of links that may still be followed. If a file is to
be made there, the last name may be missing, and an empty name cannot follow it. -/
def follow (tree : FileTree) (making : Bool) (links : Nat) (place : Place) (names : List String) :
    Except FileError Place :=
  match names with
  | [] => .ok place
  | name :: rest =>
    if !tree.isDirectory place then .error .notDirectory
    else if name = "" ∨ name = "." then tree.follow making links place rest
    else if name = ".." then tree.follow making links place.dropLast rest
    else if making ∧ rest = [""] then .error .isDirectory
    else if nameLimit < name.utf8ByteSize then .error .nameTooLong
    else match tree.entryAt (place ++ [name]) with
      | none => if making ∧ rest = [] then .ok (place ++ [name]) else .error .notFound
      | some (.link target) =>
        match links with
        | 0 => .error .tooManyLinks
        | links + 1 =>
          tree.follow making links (if isAbsolute target then [] else place) (steps target ++ rest)
      | some _ => tree.follow making links (place ++ [name]) rest
termination_by (links, names.length)

def start (tree : FileTree) (path : Path) : Place :=
  if isAbsolute path then [] else tree.workingDirectory

/-- The place a path leads to; one where nothing is yet, if a file is to be made. -/
def resolve (tree : FileTree) (making : Bool) (path : Path) : Except FileError Place :=
  if '\x00' ∈ path.spelling.toList then .error .zeroCharacter
  else if path.spelling.isEmpty then .error .notFound
  else if pathLimit ≤ path.spelling.utf8ByteSize then .error .nameTooLong
  else tree.follow making linkLimit (tree.start path) (steps path)

def locate (tree : FileTree) (path : Path) : Except FileError Place := tree.resolve false path

def find (tree : FileTree) (path : Path) : Except FileError Entry := do
  let place ← tree.locate path
  match tree.entryAt place with
  | some entry => .ok entry
  | none => .error .notFound

def exists? (tree : FileTree) (path : Path) : Bool := (tree.find path).isOk

def read (tree : FileTree) (path : Path) : Except FileError (List UInt8) := do
  match ← tree.find path with
  | .file content => .ok content
  | _ => .error .isDirectory

def children (tree : FileTree) (place : Place) : List String :=
  let names := tree.entries.filterMap fun (other, _) =>
    match other.getLast? with
    | some name => if other.dropLast = place then some name else none
    | none => none
  names.mergeSort (· ≤ ·)

/-- Paths of the files below a place, whose own path is `path`. A link back to one of the
directories on the way is an error, and so is a link that leads nowhere. A link is resolved by its
whole path, so all links on the way count. The first argument bounds the depth. -/
def filesBelow (tree : FileTree) : Nat → List Place → Path → Place →
    Except (Path × FileError) (List Path)
  | 0, _, path, _ => .error (path, .cycle)
  | bound + 1, above, path, place => do
    let found ← (tree.children place).mapM fun name => do
      let inner := path.join name
      let here := place ++ [name]
      match tree.entryAt here with
      | some (.file _) => .ok [inner]
      | some .directory => tree.filesBelow bound (place :: above) inner here
      | some (.link _) =>
        match tree.locate inner with
        | .error e => .error (inner, e)
        | .ok target =>
          if !tree.isDirectory target then .ok [inner]
          else if target ∈ place :: above then .error (inner, .cycle)
          else tree.filesBelow bound (place :: above) inner target
      | none => .ok []
    return found.flatten

/-- A directory is entered at most twice on the way to a file: once through a link and once as part
of a directory that a link leads to. -/
def depthBound (tree : FileTree) : Nat := 2 * tree.entries.length + 2

/-- All files under a root, which may itself be a file. -/
def files (tree : FileTree) : Walk := fun root =>
  match tree.locate root with
  | .error e => .error (root, e)
  | .ok place =>
    match tree.entryAt place with
    | none => .error (root, .notFound)
    | some .directory => tree.filesBelow tree.depthBound [] root place
    | some _ => .ok [root]

/-- Puts an entry at a place, and directories above it where nothing is yet. -/
def put (tree : FileTree) (place : Place) (entry : Entry) : FileTree :=
  let above := (List.range place.length).map place.take
  let missing := above.filter fun other => (tree.entryAt other).isNone
  let others := tree.entries.filter (·.1 ≠ place)
  { tree with entries := others ++ missing.map (·, .directory) ++ [(place, entry)] }

/-- Makes directories along names where nothing is yet, also in front of a `..`, and gives the place
of the last. -/
def makeAlong (tree : FileTree) (place : Place) : List String → FileTree × Place
  | [] => (tree, place)
  | name :: rest =>
    match tree.follow false linkLimit place [name] with
    | .ok inner => tree.makeAlong inner rest
    | .error _ =>
      let inner := place ++ [name]
      let tree := if (tree.entryAt inner).isSome then tree else tree.put inner .directory
      tree.makeAlong inner rest

def makeDirectory (tree : FileTree) (path : Path) : FileTree :=
  (tree.makeAlong (tree.start path) (names path)).1

def add (tree : FileTree) (path : Path) (entry : Entry) : FileTree :=
  match (names path).getLast? with
  | none => tree
  | some name =>
    let (tree, place) := tree.makeAlong (tree.start path) (names path).dropLast
    tree.put (place ++ [name]) entry

def addFile (tree : FileTree) (path : Path) (content : List UInt8) : FileTree :=
  tree.add path (.file content)

def addLink (tree : FileTree) (path target : Path) : FileTree := tree.add path (.link target)

/-- Makes an empty file in a directory that exists, or empties a file, and gives its place. A link
that leads nowhere makes the file it leads to. -/
def create (tree : FileTree) (path : Path) : Except FileError (FileTree × Place) := do
  let place ← tree.resolve true path
  if tree.isDirectory place then .error .isDirectory
  else .ok (tree.put place (.file []), place)

end FileTree

end AutoloadIndex
