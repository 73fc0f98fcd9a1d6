import AutoloadIndex.FileTree
import AutoloadIndex.Scan.Event

set_option autoImplicit false

/-!
Filling a registry from files. Reading is a function from paths to contents and parsing is any
parser, so what is said here holds for all of them. Files may be parsed one by one as they are
added, or all of them before the first is added. Both ways give the same result unless the log of
the run is one of the files, since then contents depend on the events before.
-/

namespace AutoloadIndex

inductive AddFault where
  | unreadable (path : Path) (error : FileError)
  | unparsable (error : ParseError)
  | duplicate (duplicate : Duplicate)
deriving DecidableEq, Repr

def AddFault.message : AddFault → String
  | unreadable path error => "Failed to read " ++ path.spelling ++ ": " ++ error.message
  | unparsable error => error.message
  | duplicate found => found.message

/-- Contents of files, or why they cannot be read. -/
abbrev Reader := Path → Except FileError (List UInt8)

def loadFile (read : Reader) (parse : Parser) (path : Path) : Except AddFault (List Definition) :=
  match read path with
  | .error e => .error (.unreadable path e)
  | .ok content =>
    match parse content path with
    | .error e => .error (.unparsable e)
    | .ok definitions => .ok definitions

namespace Registry

def addLoaded (registry : Registry) (path : Path) (loaded : Except AddFault (List Definition)) :
    Registry × Except AddFault Added :=
  match loaded with
  | .error fault => (registry, .error fault)
  | .ok definitions =>
    let (registry, added) := registry.add path (definitions.map Definition.toSymbol)
    (registry, added.mapError .duplicate)

def addFile (registry : Registry) (read : Reader) (parse : Parser) (path : Path) :
    Registry × Except AddFault Added :=
  registry.addLoaded path (loadFile read parse path)

end Registry

namespace Scan

structure Options where
  collision : CollisionPolicy := .lastWins
  /-- Leave out files that cannot be parsed instead of failing. -/
  skipUnparsable : Bool := false
  /-- Parse all files before the first one is added. -/
  parallel : Bool := false
deriving DecidableEq, Repr

/-- Contents of files once some events have happened. -/
abbrev LiveReader := List Event → Reader

namespace LiveReader

def still (read : Reader) : LiveReader := fun _ => read

def after (read : LiveReader) (events : List Event) : LiveReader :=
  fun later => read (events ++ later)

@[simp] theorem still_after (read : Reader) (events : List Event) :
    (still read).after events = still read := rfl

end LiveReader

/-- A filled registry and the number of files left out. -/
structure Filled where
  registry : Registry
  skipped : Nat

structure Logged (α : Type) where
  events : List Event
  result : Except AddFault α

/-- What follows the attempt to add one file: its events, and the run over the remaining files
unless the fault ends it. -/
def afterAttempt (skipUnparsable : Bool) (policy : CollisionPolicy)
    (attempt : Registry × Except AddFault Added)
    (next : List Event → Registry → Logged Filled) : Logged Filled :=
  match attempt with
  | (registry, .ok added) =>
    let events := added.collisions.map (.collided policy)
    let run := next events registry
    ⟨events ++ run.events, run.result⟩
  | (registry, .error (.unparsable error)) =>
    if skipUnparsable then
      let run := next [.skipped error] registry
      ⟨.skipped error :: run.events,
        run.result.map fun filled => { filled with skipped := filled.skipped + 1 }⟩
    else ⟨[], .error (.unparsable error)⟩
  | (_, .error fault) => ⟨[], .error fault⟩

def addInTurn (read : LiveReader) (parse : Parser) (skipUnparsable : Bool) (registry : Registry) :
    List Path → Logged Filled
  | [] => ⟨[], .ok ⟨registry, 0⟩⟩
  | path :: rest =>
    afterAttempt skipUnparsable registry.policy (registry.addFile (read []) parse path)
      fun events registry => addInTurn (read.after events) parse skipUnparsable registry rest

/-- Adds files that are loaded already, in order. -/
def addAllLoaded (skipUnparsable : Bool) (registry : Registry) :
    List (Path × Except AddFault (List Definition)) → Logged Filled
  | [] => ⟨[], .ok ⟨registry, 0⟩⟩
  | (path, loaded) :: rest =>
    afterAttempt skipUnparsable registry.policy (registry.addLoaded path loaded)
      fun _ registry => addAllLoaded skipUnparsable registry rest

def populate (read : LiveReader) (parse : Parser) (options : Options) (registry : Registry)
    (files : List Path) : Logged Filled :=
  if options.parallel then
    addAllLoaded options.skipUnparsable registry
      (files.map fun path => (path, loadFile (read []) parse path))
  else addInTurn read parse options.skipUnparsable registry files

end Scan

end AutoloadIndex
