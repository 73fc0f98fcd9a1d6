import AutoloadIndex.Dialect.Header
import AutoloadIndex.Lexeme.Lexer
import AutoloadIndex.Lexeme.Statement
import AutoloadIndex.Nesting
import AutoloadIndex.Symbol.Definition
import AutoloadIndex.Symbol.Literal
import AutoloadIndex.Text.Utf8

set_option autoImplicit false

/-!
The fact scan finds definitions in one pass over the lexemes, without a syntax tree. It keeps the
nesting of braces and the namespace in effect; a keyword counts when it starts a statement outside
all blocks.
-/

namespace AutoloadIndex.FactScan

open Lexeme (ahead nameAhead punctAhead wordAhead)

structure Items where
  /-- Number of open brackets. -/
  depth : Nat := 0
  /-- The last identifier, which the next equals sign makes a constant. -/
  last : Option (List Char) := none
  inValue : Bool := false
deriving DecidableEq, Repr

/-- Progress after one token of a constant declaration; none if it ends the declaration. The second
part is the name of a constant found. -/
def Items.next (items : Items) (token : Token) :
    Option Items × Option (List Char) :=
  if token.isPunct ['(', '[', '{'] then (some { items with depth := items.depth + 1 }, none)
  else if token.isPunct [')', ']', '}'] then (some { items with depth := items.depth - 1 }, none)
  else if token = .punct '=' ∧ items.depth = 0 ∧ !items.inValue then
    (some { items with last := none, inValue := true }, items.last)
  else if token = .punct ',' ∧ items.depth = 0 then (some { items with inValue := false }, none)
  else if (token = .punct ';' ∨ token = .closeTag) ∧ items.depth = 0 then (none, none)
  else match token with
    | .ident name =>
      (some (if items.inValue then items else { items with last := some name }), none)
    | _ => (some items, none)

structure State where
  nesting : Nesting := {}
  scope : Option String := none
  previous : Option Lexeme := none
  /-- Set while the items of a constant declaration are read. -/
  items : Option Items := none
deriving DecidableEq, Repr

/-- An unbalanced brace, by its offset or that of the end of the last lexeme. -/
inductive BraceFault where
  | stray (offset : Nat)
  | unclosed (offset : Nat)
deriving DecidableEq, Repr

namespace State

def qualified (state : State) (kind : Kind) (name : List Char) : Symbol :=
  ⟨kind, Name.qualify state.scope (.ofList name)⟩

def elementText (stop : Nat) : List Lexeme → List Char
  | [] => []
  | lexeme :: rest =>
    if lexeme.start ≠ stop then []
    else match lexeme.token with
      | .ident text => text ++ elementText lexeme.stop rest
      | .punct mark =>
        if mark = ':' ∨ mark = '-' then mark :: elementText lexeme.stop rest else []
      | _ => []

/-- Class name of the element whose colon is the first of the lexemes. -/
def elementName (lexemes : List Lexeme) : Option (List Char) :=
  match lexemes with
  | [] => none
  | colon :: rest =>
    match elementText colon.stop rest with
    | [] => none
    | text => some (Name.ofElement text)

/-- Name of a class, unless it is the keyword of a clause. -/
def className (rest : List Lexeme) : Option (List Char) :=
  if wordAhead "extends" rest 0 || wordAhead "implements" rest 0 then none else nameAhead rest 0

def enumName (rest : List Lexeme) : Option (List Char) :=
  if punctAhead ['{', ':'] rest 1 || wordAhead "implements" rest 1 then nameAhead rest 0 else none

def functionName (rest : List Lexeme) : Option (List Char) :=
  let rest := if punctAhead ['&'] rest 0 then rest.tail else rest
  if punctAhead ['(', '<'] rest 1 then nameAhead rest 0 else none

def aliasName (rest : List Lexeme) : Option (List Char) :=
  if Lexeme.opensAlias rest then nameAhead rest 0 else none

/-- Name that a call of `define` gives to a constant: its first argument, if that is a lone
literal. -/
def definedName (rest : List Lexeme) : Option (List Char) :=
  match ahead rest 1 with
  | some (.str literal) =>
    if punctAhead ['('] rest 0 && punctAhead [',', ')'] rest 2 then Literal.value literal else none
  | _ => none

def declared (state : State) (keyword : Keyword) (rest : List Lexeme) : Option Symbol :=
  match keyword with
  | .classDecl =>
    (if punctAhead [':'] rest 0 then elementName rest else className rest).map
      (state.qualified .classLike)
  | .interfaceDecl | .traitDecl => (className rest).map (state.qualified .classLike)
  | .enumDecl => (enumName rest).map (state.qualified .classLike)
  | .functionDecl => (functionName rest).map (state.qualified .function)
  | .typeDecl => (aliasName rest).map (state.qualified .typeAlias)
  | .defineCall => (definedName rest).map fun name => ⟨.constant, Name.relative (.ofList name)⟩
  | .haltCompiler | .namespaceScope | .constDecl => none

def inNamespace (state : State) (rest : List Lexeme) : State :=
  match nameAhead rest 0 with
  | some name =>
    let scope := some (Name.bare (.ofList name))
    if punctAhead [';'] rest 1 then { state with scope }
    else if punctAhead ['{'] rest 1 then { state with scope, nesting := state.nesting.expectScope }
    else state
  | none =>
    if punctAhead ['{'] rest 0 then
      { state with scope := none, nesting := state.nesting.expectScope }
    else state

def enter (state : State) (keyword : Keyword) (rest : List Lexeme) : State :=
  match keyword with
  | .namespaceScope => state.inNamespace rest
  | .constDecl => { state with items := some {} }
  | _ => state

/-- The keyword at which a statement outside all blocks starts. -/
def keyword? (state : State) (token : Token) : Option Keyword := do
  let word ← token.name?
  guard (state.nesting.isTopLevel && startsStatement (state.previous.map Lexeme.token))
  Keyword.ofWord? word

/-- The state after a brace, which outside constant declarations opens or closes a level. -/
def nest (state : State) (lexeme : Lexeme) : Except BraceFault State :=
  if lexeme.token = .punct '{' then .ok { state with nesting := state.nesting.opened }
  else if lexeme.token = .punct '}' then
    match state.nesting.close? with
    | some (.scope, nesting) => .ok { state with nesting, scope := none }
    | some (.block, nesting) => .ok { state with nesting }
    | none => .error (.stray lexeme.start)
  else .ok state

end State

def scan (state : State) : List Lexeme → Except BraceFault (List Symbol)
  | [] =>
    if state.nesting.isBalanced then .ok []
    else .error (.unclosed ((state.previous.map Lexeme.stop).getD 0))
  | lexeme :: rest =>
    match state.items with
    | some items =>
      let (items, name) := items.next lexeme.token
      let found := (name.map (state.qualified .constant)).toList
      (scan { state with items, previous := some lexeme } rest).map (found ++ ·)
    | none =>
      match state.keyword? lexeme.token with
      | some .haltCompiler => .ok []
      | some keyword =>
        let found := (state.declared keyword rest).toList
        (scan { state.enter keyword rest with previous := some lexeme } rest).map (found ++ ·)
      | none =>
        match state.nest lexeme with
        | .error fault => .error fault
        | .ok state => scan { state with previous := some lexeme } rest

def lineBreaks (offset : Nat) : List Char → Nat
  | [] => 0
  | c :: rest =>
    if offset < c.utf8Size then 0
    else (if c = '\n' then 1 else 0) + lineBreaks (offset - c.utf8Size) rest

def lineOf (source : List Char) (offset : Nat) : Nat := lineBreaks offset source + 1

/-- Lexemes of a file, whose path decides whether it starts in code. -/
def lexFile (path : Path) (source : List Char) : Except LexError (List Lexeme) :=
  Lexeme.lex (if Dialect.startsInCode path source then .code else .html) source

def symbols (path : Path) (source : List Char) : Except ParseCause (List Symbol) :=
  match lexFile path source with
  | .error e => .error (.lexical e.fault (lineOf source e.offset))
  | .ok lexemes =>
    match scan {} lexemes with
    | .ok found => .ok found
    | .error (.stray offset) => .error (.strayBrace (lineOf source offset))
    | .error (.unclosed offset) => .error (.openBrace (lineOf source offset))

def parse : Parser := fun content path =>
  match symbols path (Text.decode content) with
  | .ok found => .ok (found.map (·.definedIn path))
  | .error cause => .error ⟨path, cause⟩

end AutoloadIndex.FactScan
