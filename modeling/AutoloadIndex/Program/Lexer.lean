import AutoloadIndex.Program.Extent

set_option autoImplicit false

/-!
The lexer of the full grammar. A mode tells what the text at hand is: inline HTML, code, or the text
of a string or a heredoc. Code inserted into a text lasts up to an offset that is found beforehand;
the piece that reaches this offset is the last one of it. At most two steps consume a character, so
the length of the source bounds the number of steps.
-/

namespace AutoloadIndex.Program

inductive Mode where
  | html
  | code
  /-- Inside of double quotes. -/
  | quoted
  /-- Inside of backticks. -/
  | command
  | heredoc (label : List Char)
  | nowdoc (label : List Char)
deriving DecidableEq, Repr

/-- Code inserted into a text: the offset at which it ends, and the mode of the text. -/
structure Insertion where
  stop : Nat
  outer : Mode
deriving DecidableEq, Repr

structure LexState where
  mode : Mode
  insertions : List Insertion
deriving DecidableEq, Repr

/-- The state after a piece of the text. The innermost insertion is over if the piece reaches its
end. -/
def LexState.after (state : LexState) (mode : Mode) (start stop : Nat) : LexState :=
  match state.insertions with
  | [] => ⟨mode, []⟩
  | inner :: more =>
    if start ≤ inner.stop ∧ inner.stop ≤ stop then ⟨inner.outer, more⟩
    else ⟨mode, state.insertions⟩

def Mode.close? (mode : Mode) (cs : List Char) : Option Nat :=
  match mode with
  | html | code => none
  | quoted => if cs.head? = some '"' then some 1 else none
  | command => if cs.head? = some '\x60' then some 1 else none
  | heredoc label | nowdoc label => closingLabel label cs

def Mode.insertion? (mode : Mode) (cs : List Char) : Option Nat :=
  match mode with
  | html | code | nowdoc _ => none
  | quoted | command | heredoc _ => Program.insertion? cs

def Mode.byLine : Mode → Bool
  | heredoc _ | nowdoc _ => true
  | html | code | quoted | command => false

/-- Whether the character behind a backslash is hidden; inside of double quotes it is not if the
backslash is hidden itself. -/
def Mode.hides (mode : Mode) (hidden : Bool) : Bool :=
  match mode with
  | quoted => !hidden
  | html | code | command | heredoc _ | nowdoc _ => true

/-- Characters of text up to its end, to the end of the line, or to code inserted into it. The flag
tells that the first character is hidden by a backslash, so that nothing starts or ends there. White
space within a line does not use up the backslash. -/
def textLength (mode : Mode) (hidden : Bool) : List Char → Nat
  | [] => 0
  | c :: rest =>
    if mode.byLine ∧ c = '\n' then 1
    else if mode.byLine ∧ c = '\r' then if rest.head? = some '\n' then 2 else 1
    else if mode.byLine ∧ isSpace c then textLength mode hidden rest + 1
    else if c = '\\' then textLength mode (mode.hides hidden) rest + 1
    else if !hidden && ((mode.insertion? (c :: rest)).isSome ||
        (!mode.byLine && (mode.close? (c :: rest)).isSome)) then 0
    else textLength mode false rest + 1

inductive Step where
  | gap (count : Nat)
  | token (token : Token) (count : Nat) (mode : Mode)
  /-- Code starts here, which is inserted into the text. -/
  | insertion (count : Nat)
deriving Repr

def openTag? (rest : List Char) : Token × Nat :=
  if Text.sameIgnoringCase (rest.take 3) ['p', 'h', 'p'] then (.openTag, 5)
  else if rest.head? = some '=' then (.openEcho, 3)
  else (.openTag, 2)

def htmlLength : List Char → Nat
  | [] => 0
  | c :: rest => if c = '<' ∧ rest.head? = some '?' then 0 else htmlLength rest + 1

/-- The next piece of HTML. A line that names an interpreter is skipped with all tags in it. -/
def htmlStep (cs : List Char) : Step :=
  if ['#', '!'].isPrefixOf cs then .token .html ((cs.takeWhile (· != '\n')).length + 1) .html
  else match htmlLength cs with
    | 0 => let (token, count) := openTag? (cs.drop 2); .token token count .code
    | count => .token .html count .html

def heredocStep (cs : List Char) : Option Step :=
  (openingLabel (cs.drop 3)).map fun (label, raw, count) =>
    .token .templateOpen (3 + count) (if raw then .nowdoc label else .heredoc label)

def stringStep (quote : Char) (rest : List Char) : Option Step :=
  if quote = '"' ∧ hasInsertion rest then some (.token .templateOpen 1 .quoted)
  else (plainString quote rest).map fun count =>
    .token (.literal (.ofList (quote :: rest.take count))) (count + 1) .code

/-- The next piece of code; the flag tells that the code is inserted into a text. -/
def codeStep (inserted : Bool) (c : Char) (rest : List Char) : Option Step :=
  let cs := c :: rest
  if isSpace c then some (.gap 1)
  else if c = '#' ∧ rest.head? ≠ some '[' then some (.gap (lineComment rest + 1))
  else if c = '/' ∧ rest.head? = some '/' then some (.gap (lineComment rest + 1))
  else if c = '/' ∧ rest.head? = some '*' then
    (blockComment (rest.drop 1)).map fun count => .gap (count + 2)
  else if c = '?' ∧ rest.head? = some '>' then some (.token .closeTag 2 .html)
  else if c = '\'' ∨ c = '"' then stringStep c rest
  else if c = '\x60' then some (.token .templateOpen 1 .command)
  else if cs.take 3 = ['<', '<', '<'] then heredocStep cs
  else if c = '$' ∧ rest.head?.any isNameStart then
    some (.token .varName (1 + (rest.takeWhile isNameChar).length) .code)
  else if c.isDigit ∨ (c = '.' ∧ rest.head?.any Char.isDigit) then
    some (.token .number (numberLength cs) .code)
  else match nameLength inserted cs, if c = '(' then castLength? cs else none with
    | some (count, form), _ => some (.token (.name form (.ofList (cs.take count))) count .code)
    | none, some count => some (.token .cast count .code)
    | none, none => (operator? cs).map fun text => .token (.mark text) text.length .code

def textStep (mode : Mode) (cs : List Char) : Step :=
  match mode.close? cs, mode.insertion? cs with
  | some count, _ => .token .templateClose count .code
  | none, some count => .insertion count
  | none, none => .token .templateText (textLength mode false cs) mode

def LexState.step (state : LexState) (c : Char) (rest : List Char) : Option Step :=
  match state.mode with
  | .html => some (htmlStep (c :: rest))
  | .code => codeStep (!state.insertions.isEmpty) c rest
  | .quoted | .command | .heredoc _ | .nowdoc _ => some (textStep state.mode (c :: rest))

/-- The brackets and the end mark after the word that ends the program, as tokens. -/
def haltTail (offset : Nat) : List Char → Option (List Lexeme) :=
  let rec go (offset : Nat) (wanted : List String) : List Char → Option (List Lexeme)
    | [] => none
    | c :: rest =>
      if isSpace c then go (offset + c.utf8Size) wanted rest
      else match wanted with
        | [] =>
          if c = ';' then some [⟨.mark ";", offset, offset + 1⟩]
          else if c = '?' ∧ rest.head? = some '>' then some [⟨.closeTag, offset, offset + 2⟩]
          else none
        | text :: wanted =>
          if text = .singleton c then
            (go (offset + 1) wanted rest).map (⟨.mark text, offset, offset + 1⟩ :: ·)
          else none
  go offset ["(", ")"]

/-- Tokens of a text at a byte offset. A text must not end inside of a string or an insertion, and
nothing after the end of the program is read. -/
def lexFrom (state : LexState) (offset : Nat) : Nat → List Char → Option (List Lexeme)
  | _, [] =>
    if state.insertions.isEmpty ∧ (state.mode = .html ∨ state.mode = .code) then some [] else none
  | 0, _ :: _ => none
  | steps + 1, c :: rest => do
    match ← state.step c rest with
    | .insertion count =>
      let stop := offset + Text.width ((c :: rest).take count)
      lexFrom ⟨.code, ⟨stop, state.mode⟩ :: state.insertions⟩ offset steps (c :: rest)
    | .gap count =>
      let stop := offset + Text.width ((c :: rest).take count)
      lexFrom (state.after state.mode offset stop) stop steps ((c :: rest).drop count)
    | .token token count mode =>
      let stop := offset + Text.width ((c :: rest).take count)
      let following := (c :: rest).drop count
      let more ← if token.word = "__halt_compiler" then haltTail stop following
        else lexFrom (state.after mode offset stop) stop steps following
      return ⟨token, offset, stop⟩ :: more

def lex (source : List Char) : Option (List Lexeme) :=
  lexFrom ⟨.html, []⟩ 0 (2 * source.length) source

end AutoloadIndex.Program
