import AutoloadIndex.Scan.Basic

set_option autoImplicit false

/-!
Scans of a whole tree or of a single file, and the check whether two families agree on a tree.
-/

namespace AutoloadIndex.Scan

inductive Fault where
  | fileSystem (path : Path) (error : FileError)
  | parse (error : ParseError)
  | duplicate (duplicate : Duplicate)
  | mismatch (report : Report)
deriving DecidableEq, Repr

namespace Fault

def message : Fault → String
  | fileSystem path error => "File system error at " ++ path.spelling ++ ": " ++ error.message
  | parse error => error.message
  | duplicate found => found.message
  | mismatch report => report.mismatchMessage

def chain : Fault → List String
  | fileSystem path error => [message (fileSystem path error), error.message]
  | fault => [fault.message]

def ofAdd : AddFault → Fault
  | .unreadable path error => fileSystem path error
  | .unparsable error => parse error
  | .duplicate found => duplicate found

end Fault

def sourceExtensions : List String := ["php", "hh", "hck", "hack"]

def isSourceFile (path : Path) : Bool := path.extension.any sourceExtensions.contains

/-- The source files among those of a walk, in the order in which they are added. -/
def inOrder (files : List Path) : List Path :=
  (files.filter isSourceFile).mergeSort fun first second => first.order second != .gt

/-- Source files that a walk finds under a root, which must be there. -/
def sourcesOf (tree : FileTree) (walk : Walk) (root : Path) : Except Fault (List Path) :=
  match tree.find root with
  | .error error => .error (.fileSystem root error)
  | .ok _ =>
    match walk root with
    | .error (path, error) => .error (.fileSystem path error)
    | .ok files => .ok (inOrder files)

def sourceFiles (tree : FileTree) (root : Path) : Except Fault (List Path) :=
  sourcesOf tree tree.files root

/-- What a run depends on. Contents may depend on the events so far, as those of the log do. -/
structure World where
  tree : FileTree
  read : LiveReader := .still tree.read
  walk : Walk := tree.files
  outline : Program.Outliner := Program.outline

def World.after (world : World) (events : List Event) : World :=
  { world with read := world.read.after events }

structure Scanned where
  family : Family
  registry : Registry

structure Outcome (α : Type) where
  events : List Event
  result : Except Fault α

namespace Outcome

def fail {α : Type} (fault : Fault) : Outcome α := ⟨[], .error fault⟩

def andThen {α β : Type} (outcome : Outcome α) (next : α → Outcome β) : Outcome β :=
  match outcome.result with
  | .error fault => ⟨outcome.events, .error fault⟩
  | .ok value =>
    let later := next value
    ⟨outcome.events ++ later.events, later.result⟩

end Outcome

/-- Adds files to an empty registry of the family, between the first and the last event. -/
def ofFiles (world : World) (family : Family) (options : Options) (root : Path)
    (files : List Path) : Outcome Scanned :=
  let start : Event := .started root family files.length
  let run := populate (world.after [start]).read (family.parserOver world.outline) options
    { policy := options.collision } files
  match run.result with
  | .error fault => ⟨start :: run.events, .error (.ofAdd fault)⟩
  | .ok filled =>
    let registry := filled.registry
    let stop : Event := .completed registry.index registry.files filled.skipped
    ⟨start :: run.events ++ [stop], .ok ⟨family, registry⟩⟩

def ofTree (world : World) (family : Family) (options : Options) (root : Path) :
    Outcome Scanned :=
  match sourcesOf world.tree world.walk root with
  | .error fault => .fail fault
  | .ok files => ofFiles world family options root files

/-- Scans one file, whatever its extension. -/
def ofFile (world : World) (family : Family) (options : Options) (path : Path) :
    Outcome Scanned :=
  match world.tree.find path with
  | .error error => .fail (.fileSystem path error)
  | .ok (.file _) => ofFiles world family options path [path]
  | .ok _ => .fail (.fileSystem path .notFile)

def check (world : World) (root : Path) (first second : Family) (exclude : String)
    (options : Options) : Outcome Report :=
  let before := ofTree world first options root
  before.andThen fun left =>
    (ofTree (world.after before.events) second options root).andThen fun right =>
      let kinds := Comparison.compare exclude left.registry.index right.registry.index
      let report : Report := ⟨root, first, second, exclude, kinds⟩
      ⟨[.compared report], .ok report⟩

inductive Checked where
  | compared (report : Report)
  /-- Only the reference family could run. -/
  | referenceOnly (reason : String) (index : Index)

/-- Compares the families if both are at hand, and otherwise runs the reference family alone. -/
def checkAvailable (world : World) (root : Path) (exclude : String) (capabilities : Capabilities)
    (options : Options) : Outcome Checked :=
  if capabilities.supports .factScan then
    (check world root .reference .factScan exclude options).andThen fun report =>
      ⟨[], .ok (.compared report)⟩
  else
    let reason := "parser family '" ++ Family.factScan.text ++ "' is not available"
    (Outcome.mk [.notCompared reason] (.ok ())).andThen fun () =>
      (ofTree (world.after [.notCompared reason]) .reference options root).andThen fun scanned =>
        ⟨[], .ok (.referenceOnly reason scanned.registry.index)⟩

def requireConsistent (report : Report) : Except Fault Report :=
  if report.isConsistent then .ok report else .error (.mismatch report)

namespace Scanned

def describe (scanned : Scanned) : String :=
  let family := match scanned.family with
    | .reference => "DefinitionFinder"
    | .factScan => "FactScan"
  "ScanBuilder \x7b family: " ++ family ++ ", files: " ++ toString scanned.registry.files ++
    ", entries: " ++ toString scanned.registry.index.size ++ " \x7d"

end Scanned

end AutoloadIndex.Scan
