import AutoloadIndex.Command.Arguments
import AutoloadIndex.Command.Output
import AutoloadIndex.Command.Timestamp

set_option autoImplicit false

/-!
A run of the program on a file tree, as a function: what it prints, its exit code, and the messages
for the scan log.
-/

namespace AutoloadIndex.Command

structure Finish where
  code : Nat
  output : String := ""
  errors : String := ""
  log : List String := []
deriving DecidableEq, Repr

abbrev Chain := List String

structure Setting where
  tree : FileTree
  time : Timestamp := {}
  color : Bool := false
  capabilities : Capabilities := {}

namespace Finish

def failed (color : Bool) (chain : Chain) : Finish :=
  { code := 1, errors := printed [paint color .red "Error" ++ ": " ++ ": ".intercalate chain] }

def after (finish : Finish) (errors : String) (events : List Scan.Event) : Finish :=
  { finish with
    errors := errors ++ finish.errors
    log := events.flatMap Scan.Event.messages ++ finish.log }

end Finish

def defaultFamily (capabilities : Capabilities) : Family :=
  if capabilities.supports .factScan then .factScan else .reference

def workingDirectory (tree : FileTree) : Path := ⟨"/" ++ "/".intercalate tree.workingDirectory⟩

def settingsOf (tree : FileTree) (arguments : Arguments) :
    Except Settings.Fault (Settings × Option Path) :=
  if arguments.noConfig then .ok ({}, none)
  else match arguments.config with
    | some path => (Settings.load tree path).map (·, some path)
    | none =>
      match Settings.loadFrom tree (workingDirectory tree) with
      | .error fault => .error fault
      | .ok none => .ok ({}, none)
      | .ok (some (settings, path)) => .ok (settings, some path)

def isFile (tree : FileTree) (path : Path) : Bool :=
  match tree.find path with
  | .ok (.file _) => true
  | _ => false

def conclude {α : Type} (color : Bool) (outcome : Scan.Outcome α) (finish : α → Finish) : Finish :=
  match outcome.result with
  | .error fault => (Finish.failed color fault.chain).after "" outcome.events
  | .ok value => (finish value).after "" outcome.events

def runScan (setting : Setting) (world : Scan.World) (format : Format) (settings : Settings)
    (verbose : Bool) (path : Path) (parser collision : Option String) (skip parallel : Bool) :
    Finish :=
  match settings.family parser, settings.scanOptions collision skip parallel with
  | .error fault, _ | .ok _, .error fault => .failed setting.color fault.chain
  | .ok family, .ok options =>
    let family := family.getD (defaultFamily setting.capabilities)
    let outcome :=
      if isFile world.tree path then Scan.ofFile world family options path
      else Scan.ofTree world family options path
    conclude setting.color outcome fun scanned =>
      { code := 0, output := Output.scan setting.color format path scanned verbose }

def runCheck (setting : Setting) (world : Scan.World) (format : Format) (settings : Settings)
    (root : Path) (exclude : Option String) : Finish :=
  match settings.scanOptions none false false with
  | .error fault => .failed setting.color fault.chain
  | .ok options =>
    let outcome := Scan.checkAvailable world root (settings.excluded exclude)
      setting.capabilities options
    conclude setting.color outcome fun
      | .compared report =>
        { code := if report.isConsistent then 0 else 1
          output := Output.comparison setting.color format report }
      | .referenceOnly reason index =>
        let (output, errors) := Output.referenceOnly setting.color format reason index
        { code := 0, output, errors }

def runAction (setting : Setting) (world : Scan.World) (settings : Settings)
    (arguments : Arguments) : Finish :=
  match settings.outputFormat arguments.format with
  | .error fault => .failed setting.color fault.chain
  | .ok format =>
    match arguments.action with
    | .scan path parser collision skip parallel =>
      runScan setting world format settings arguments.verbose path parser collision skip parallel
    | .check root exclude => runCheck setting world format settings root exclude
    | .parsers =>
      { code := 0, output := Output.families setting.color format setting.capabilities }

def runLogged (setting : Setting) (world : Scan.World) (arguments : Arguments) : Finish :=
  match settingsOf world.tree arguments with
  | .error fault => .failed setting.color fault.chain
  | .ok (settings, none) => runAction setting world settings arguments
  | .ok (settings, some path) =>
    let told := paint setting.color .bold "Using config" ++ ": " ++ path.spelling
    (runAction setting (world.after [.loadedSettings path]) settings arguments).after
      (if arguments.verbose then printed [told] else "") [.loadedSettings path]

def logText (time : Timestamp) (messages : List String) : String :=
  printed (messages.map time.line)

/-- A tree in which the file at a place is the log: it holds the lines of the events so far. -/
def loggedTree (tree : FileTree) (place : Place) (time : Timestamp) : Scan.World where
  tree := tree
  read events path :=
    match tree.locate path with
    | .ok found =>
      if found = place then
        .ok (logText time (events.flatMap Scan.Event.messages)).toUTF8.toList
      else tree.read path
    | .error error => .error error

/-- Opens the log, if there is one, and runs the action. Without a log no messages are kept. -/
def runArguments (setting : Setting) (arguments : Arguments) : Finish :=
  match arguments.logFile with
  | none => { runLogged setting { tree := setting.tree } arguments with log := [] }
  | some path =>
    match setting.tree.create path with
    | .error error => .failed setting.color [error.message]
    | .ok (tree, place) =>
      let told := paint setting.color .bold "Logging to" ++ ": " ++ path.spelling
      (runLogged setting (loggedTree tree place setting.time) arguments).after
        (if arguments.verbose then printed [told] else "") []

def programName : String := "automap"

def versionText : String := programName ++ " 0.1.0"

def helpText : String := printed [
  "Build autoload maps of top-level PHP and Hack definitions",
  "",
  "Usage: " ++ programName ++ " [OPTIONS] <COMMAND>",
  "",
  "Commands:",
  "  scan     Build the autoload map of a directory or a single file",
  "  check    Check that both parser families produce the same map",
  "  parsers  List parser families"]

def run (setting : Setting) (arguments : List String) : Finish :=
  match readArguments arguments with
  | .error .help => { code := 0, output := helpText }
  | .error .version => { code := 0, output := printed [versionText] }
  | .error .misuse => { code := 2, errors := helpText }
  | .ok arguments => runArguments setting arguments

end AutoloadIndex.Command
