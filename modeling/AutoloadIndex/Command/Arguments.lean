import AutoloadIndex.Path

set_option autoImplicit false

/-!
Arguments of the command line. Options are read at two levels: in front of the subcommand, where
only the common ones count, and after it. At each level an option may be given once.
-/

namespace AutoloadIndex.Command

inductive Operand where
  | nothing
  | text
  /-- A path, which must not be empty. -/
  | path
deriving DecidableEq, Repr

structure OptionForm where
  long : String
  short : Option Char := none
  operand : Operand := .nothing
deriving DecidableEq, Repr

def commonOptions : List OptionForm := [
  ⟨"config", none, .path⟩, ⟨"no-config", none, .nothing⟩, ⟨"log-file", none, .path⟩,
  ⟨"verbose", some 'v', .nothing⟩, ⟨"help", some 'h', .nothing⟩]

def programOptions : List OptionForm := commonOptions ++ [⟨"version", some 'V', .nothing⟩]

def formatOption : OptionForm := ⟨"format", none, .text⟩

def scanForms : List OptionForm := commonOptions ++ [
  ⟨"parser", some 'p', .text⟩, ⟨"collision", none, .text⟩, ⟨"skip-unparseable", none, .nothing⟩,
  ⟨"parallel", none, .nothing⟩, formatOption]

def checkForms : List OptionForm := commonOptions ++ [⟨"exclude", none, .text⟩, formatOption]

def parsersForms : List OptionForm := commonOptions ++ [formatOption]

inductive Stop where
  | help
  | version
  | misuse
deriving DecidableEq, Repr

structure Level where
  options : List (String × String) := []
  others : List String := []
deriving DecidableEq, Repr

namespace Level

def has (level : Level) (name : String) : Bool := (level.options.lookup name).isSome

def get? (level : Level) (name : String) : Option String := level.options.lookup name

/-- Notes an option, unless it was given before. Asking for help or the version ends the reading. -/
def note (level : Level) (form : OptionForm) (operand : String) : Except Stop Level :=
  if form.long = "help" then .error .help
  else if form.long = "version" then .error .version
  else if level.has form.long then .error .misuse
  else if form.operand = .path ∧ operand.isEmpty then .error .misuse
  else .ok { level with options := level.options ++ [(form.long, operand)] }

end Level

def isOption (argument : String) : Bool := argument.startsWith "-" && argument != "-"

/-- What one argument that looks like an option stands for: notes to take, and an option whose
operand is the next argument. -/
structure Reading where
  notes : List (OptionForm × String) := []
  pending : Option OptionForm := none

def readLong (forms : List OptionForm) (text : List Char) : Option Reading := do
  let name := text.takeWhile (· != '=')
  let form ← forms.find? (·.long.toList = name)
  match text.drop name.length, form.operand with
  | [], .nothing => some { notes := [(form, "")] }
  | [], _ => some { pending := some form }
  | _ :: _, .nothing => none
  | _ :: operand, _ => some { notes := [(form, .ofList operand)] }

/-- Reads letters after a single dash. A letter whose option has an operand ends the letters, and
what follows it is the operand. -/
def readShort (forms : List OptionForm) : List Char → Option Reading
  | [] => some {}
  | letter :: rest => do
    let form ← forms.find? (·.short = some letter)
    if form.operand = .nothing then
      let more ← readShort forms rest
      return { more with notes := (form, "") :: more.notes }
    else match rest with
      | [] => return { pending := some form }
      | '=' :: operand => return { notes := [(form, .ofList operand)] }
      | operand => return { notes := [(form, .ofList operand)] }

/-- The notes up to the first letter that is not known. Help and version are taken even if a later
letter is wrong. -/
def knownLetters (forms : List OptionForm) : List Char → List (OptionForm × String)
  | [] => []
  | letter :: rest =>
    match forms.find? (·.short = some letter) with
    | some form => if form.operand = .nothing then (form, "") :: knownLetters forms rest else []
    | none => []

def takeNotes (level : Level) (notes : List (OptionForm × String)) : Except Stop Level :=
  notes.foldlM (fun level (form, operand) => level.note form operand) level

def readOption (forms : List OptionForm) (level : Level) (argument : String) :
    Except Stop (Level × Option OptionForm) :=
  match argument.toList with
  | '-' :: '-' :: text =>
    match readLong forms text with
    | none => .error .misuse
    | some reading => (takeNotes level reading.notes).map (·, reading.pending)
  | _ :: letters =>
    match readShort forms letters with
    | none => (takeNotes level (knownLetters forms letters)).bind fun _ => .error .misuse
    | some reading => (takeNotes level reading.notes).map (·, reading.pending)
  | [] => .error .misuse

/-- Notes an argument that is no option. All such arguments are paths, so none is empty. -/
def Level.noteOther (limit : Nat) (level : Level) (argument : String) : Except Stop Level :=
  if level.others.length < limit ∧ !argument.isEmpty then
    .ok { level with others := level.others ++ [argument] }
  else .error .misuse

/-- Reads a level with a number of other arguments. Without that number it is the program's own
level, which ends at the first other argument and leaves it with those after it. After `--` nothing
is an option. -/
def readLevel (forms : List OptionForm) (limit : Option Nat) (level : Level) :
    List String → Except Stop (Level × List String)
  | [] => .ok (level, [])
  | argument :: rest =>
    if argument = "--" then
      match limit with
      | none => .error .misuse
      | some limit => (rest.foldlM (Level.noteOther limit) level).map (·, [])
    else if isOption argument then
      match readOption forms level argument with
      | .error stop => .error stop
      | .ok (level, none) => readLevel forms limit level rest
      | .ok (level, some form) =>
        match rest with
        | [] => .error .misuse
        | operand :: rest =>
          if isOption operand then .error .misuse
          else match level.note form operand with
            | .error stop => .error stop
            | .ok level => readLevel forms limit level rest
    else match limit with
      | none => .ok (level, argument :: rest)
      | some count =>
        match level.noteOther count argument with
        | .error stop => .error stop
        | .ok level => readLevel forms limit level rest

inductive Action where
  | scan (path : Path) (parser collision : Option String) (skip parallel : Bool)
  | check (root : Path) (exclude : Option String)
  | parsers
deriving DecidableEq, Repr

structure Arguments where
  action : Action
  format : Option String
  config : Option Path
  noConfig : Bool
  logFile : Option Path
  verbose : Bool
deriving DecidableEq, Repr

/-- The arguments of both levels together. An option after the subcommand goes before one in front
of it. -/
def combine (outer inner : Level) (action : Action) : Arguments :=
  let common (name : String) : Option Path := (inner.get? name <|> outer.get? name).map Path.mk
  ⟨action, inner.get? "format", common "config", inner.has "no-config" || outer.has "no-config",
    common "log-file", inner.has "verbose" || outer.has "verbose"⟩

def onlyPath (level : Level) : Except Stop Path :=
  match level.others with
  | [path] => .ok ⟨path⟩
  | _ => .error .misuse

def readSubcommand (outer : Level) (name : String) (rest : List String) :
    Except Stop Arguments := do
  match name with
  | "scan" =>
    let (level, _) ← readLevel scanForms (some 1) {} rest
    let path ← onlyPath level
    return combine outer level (.scan path (level.get? "parser") (level.get? "collision")
      (level.has "skip-unparseable") (level.has "parallel"))
  | "check" =>
    let (level, _) ← readLevel checkForms (some 1) {} rest
    let root ← onlyPath level
    return combine outer level (.check root (level.get? "exclude"))
  | "parsers" =>
    let (level, _) ← readLevel parsersForms (some 0) {} rest
    return combine outer level .parsers
  | "help" =>
    match rest with
    | [] => .error .help
    | [topic] =>
      .error (if ["scan", "check", "parsers", "help"].contains topic then .help else .misuse)
    | _ => .error .misuse
  | _ => .error .misuse

def readArguments (arguments : List String) : Except Stop Arguments := do
  let (outer, rest) ← readLevel programOptions none {} arguments
  match rest with
  | [] => .error .misuse
  | name :: rest => readSubcommand outer name rest

end AutoloadIndex.Command
