import AutoloadIndex.Scan.Run
import AutoloadIndex.Toml.Document

set_option autoImplicit false

/-!
Settings from a file, which is looked for in a directory and all directories above it. What is given
on the command line goes before what the file says.
-/

namespace AutoloadIndex

structure Settings where
  parser : Option String := none
  collision : Option String := none
  skipUnparsable : Bool := false
  parallel : Bool := false
  exclude : Option String := none
  format : Option String := none
deriving DecidableEq, Repr

namespace Settings

def fileName : String := ".automap.toml"

inductive Fault where
  | unreadable (path : Path) (error : FileError)
  | malformed (path : Path)
  | unknownParser (name : String)
  | unknownCollision (name : String)
  | unknownFormat (name : String)
deriving DecidableEq, Repr

def Fault.chain : Fault → List String
  | unreadable path error => ["Failed to read " ++ path.spelling, error.message]
  | malformed path => ["Failed to parse " ++ path.spelling, "not a valid document"]
  | unknownParser name => [Family.unknownMessage name]
  | unknownCollision name =>
    ["Invalid collision policy '" ++ name ++ "'. Valid options: " ++
      ", ".intercalate (CollisionPolicy.all.map CollisionPolicy.text)]
  | unknownFormat name =>
    ["Invalid output format '" ++ name ++ "'. Valid options: text, json"]

def Fault.message (fault : Fault) : String := fault.chain.headD ""

/-- A value of a section, by its key or, in a section that is a list, by its position. Keys that are
not known are ignored. A moment is a table of one such key. The outer option fails if the section is
anything else. -/
def field (section? : Option Toml.Value) (key : String) (position : Nat) :
    Option (Option Toml.Value) :=
  match section? with
  | none => some none
  | some (.table fields) => some (fields.lookup key)
  | some (.list items) => some items[position]?
  | some .moment => some none
  | some _ => none

def text (value : Option Toml.Value) : Option (Option String) :=
  match value with
  | none => some none
  | some (.text text) => some (some text)
  | some _ => none

def flag (value : Option Toml.Value) : Option Bool :=
  match value with
  | none => some false
  | some (.flag flag) => some flag
  | some _ => none

/-- Settings of a document in which every known key has a value of its type. -/
def ofDocument (document : Toml.Value) : Option Settings := do
  let scan ← field (some document) "scan" 0
  let check ← field (some document) "check" 1
  let output ← field (some document) "output" 2
  return {
    parser := ← text (← field scan "parser" 0)
    collision := ← text (← field scan "collision" 1)
    skipUnparsable := ← flag (← field scan "skip_unparseable" 2)
    parallel := ← flag (← field scan "parallel" 3)
    exclude := ← text (← field check "exclude" 0)
    format := ← text (← field output "format" 0) }

def load (tree : FileTree) (path : Path) : Except Fault Settings :=
  match tree.read path with
  | .error error => .error (.unreadable path error)
  | .ok content =>
    match String.fromUTF8? ⟨content.toArray⟩ with
    | none => .error (.unreadable path .invalidText)
    | some text =>
      match (Toml.parse text.toList).bind ofDocument with
      | some settings => .ok settings
      | none => .error (.malformed path)

/-- The directory and those above it, as far as the path spells them. -/
def searchPath : Nat → Path → List Path
  | 0, directory => [directory]
  | bound + 1, directory =>
    match directory.parent with
    | some above => directory :: searchPath bound above
    | none => [directory]

def locate (tree : FileTree) (start : Path) : Option Path :=
  let directories := searchPath start.spelling.length start
  (directories.map (·.join fileName)).find? tree.exists?

def loadFrom (tree : FileTree) (start : Path) : Except Fault (Option (Settings × Path)) :=
  match locate tree start with
  | none => .ok none
  | some path => (load tree path).map fun settings => some (settings, path)

def family (settings : Settings) (given : Option String) : Except Fault (Option Family) :=
  match given <|> settings.parser with
  | none => .ok none
  | some name =>
    match Family.parse? name with
    | some family => .ok (some family)
    | none => .error (.unknownParser name)

/-- Options of a scan; flags add up. -/
def scanOptions (settings : Settings) (collision : Option String) (skip parallel : Bool) :
    Except Fault Scan.Options :=
  let options (policy : CollisionPolicy) : Scan.Options :=
    ⟨policy, skip || settings.skipUnparsable, parallel || settings.parallel⟩
  match collision <|> settings.collision with
  | none => .ok (options .lastWins)
  | some name =>
    match CollisionPolicy.parse? name with
    | some policy => .ok (options policy)
    | none => .error (.unknownCollision name)

def excluded (settings : Settings) (given : Option String) : String :=
  (given <|> settings.exclude).getD ""

end Settings

inductive Format where
  | text
  | json
deriving DecidableEq, Repr

def Format.parse? (name : String) : Option Format :=
  match Text.lowercase name with
  | "text" => some .text
  | "json" => some .json
  | _ => none

def Settings.outputFormat (settings : Settings) (given : Option String) :
    Except Settings.Fault Format :=
  match given <|> settings.format with
  | none => .ok .text
  | some name =>
    match Format.parse? name with
    | some format => .ok format
    | none => .error (.unknownFormat name)

end AutoloadIndex
