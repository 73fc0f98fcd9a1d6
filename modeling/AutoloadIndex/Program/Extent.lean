import AutoloadIndex.Program.Token

set_option autoImplicit false

/-!
How many characters the pieces of a program take up: comments, strings, numbers, names, the labels
of heredocs, and code that is inserted into a text. Each function looks at the text from the piece
on.
-/

namespace AutoloadIndex.Program

def isSpace (c : Char) : Bool :=
  c == ' ' || c == '\t' || c == '\n' || c == '\x0c' || c == '\r'

def isNameStart (c : Char) : Bool := c.isAlpha || c == '_' || 0x80 ≤ c.toNat

def isNameChar (c : Char) : Bool := c.isAlphanum || c == '_' || 0x80 ≤ c.toNat

/-- Start of a label, or of a name in quotes, which has to be an ASCII letter. -/
def isLabelStart (c : Char) : Bool := c.isAlpha || c == '_'

def lineComment : List Char → Nat
  | [] => 0
  | c :: rest =>
    if c = '\n' ∨ c = '\r' ∨ (c = '?' ∧ rest.head? = some '>') then 0 else lineComment rest + 1

def blockComment : List Char → Option Nat
  | [] => none
  | c :: rest =>
    if c = '*' ∧ rest.head? = some '/' then some 2 else (blockComment rest).map (· + 1)

def plainString (quote : Char) : List Char → Option Nat
  | [] => none
  | [c] => if c = quote then some 1 else none
  | c :: d :: rest =>
    if c = quote then some 1
    else if c = '\\' then (plainString quote rest).map (· + 2)
    else (plainString quote (d :: rest)).map (· + 1)

def hasInsertion : List Char → Bool
  | [] | [_] => false
  | c :: d :: rest =>
    if c = '"' then false
    else if c = '\\' then hasInsertion rest
    else (c == '$' && (isLabelStart d || d == '{')) || (c == '{' && d == '$') ||
      hasInsertion (d :: rest)

/-- Characters up to and including the brace that closes the code. Braces are counted wherever they
stand, in strings and comments too. -/
def bracedCode (depth : Nat) : List Char → Nat
  | [] => 0
  | c :: rest =>
    if c = '}' then
      match depth with
      | 0 => 1
      | outer + 1 => bracedCode outer rest + 1
    else bracedCode (if c = '{' then depth + 1 else depth) rest + 1

/-- Characters of an index from behind its bracket on. White space ends it early. -/
def indexCode (depth : Nat) : List Char → Nat
  | [] => 0
  | c :: rest =>
    if c = ']' then
      match depth with
      | 0 => 1
      | outer + 1 => indexCode outer rest + 1
    else if c = '[' then indexCode (depth + 1) rest + 1
    else if isSpace c then 0
    else indexCode depth rest + 1

def memberCode (arrow : List Char) (cs : List Char) : Nat :=
  let name := cs.drop arrow.length
  if arrow.isPrefixOf cs && name.head?.any isLabelStart then
    arrow.length + (name.takeWhile isNameChar).length
  else 0

def variableCode : List Char → Nat
  | [] => 0
  | c :: rest =>
    if isNameChar c then variableCode rest + 1
    else if c = '[' then indexCode 0 rest + 1
    else max (memberCode ['-', '>'] (c :: rest)) (memberCode ['?', '-', '>'] (c :: rest))

def insertion? : List Char → Option Nat
  | '{' :: '$' :: rest | '$' :: '{' :: rest => some (bracedCode 0 rest + 2)
  | '$' :: c :: rest => if isNameStart c then some (variableCode rest + 2) else none
  | _ => none

def closingLabel (label line : List Char) : Option Nat :=
  let indent := (line.takeWhile fun c => c == ' ' || c == '\t' || c == '\x0c').length
  let after := line.drop indent
  if label.isPrefixOf after && (after.drop label.length).head?.all (!·.isAlphanum) then
    some (indent + label.length)
  else none

def lineBreak? : List Char → Option Nat
  | '\n' :: _ => some 1
  | '\r' :: '\n' :: _ => some 2
  | _ => none

/-- Opening label of a heredoc: its text, whether it is in single quotes, and the characters it
takes up with the line break behind it. -/
def openingLabel (cs : List Char) : Option (List Char × Bool × Nat) := do
  let indent := (cs.takeWhile isSpace).length
  let cs := cs.drop indent
  let quote := cs.head?.filter fun c => c == '\'' || c == '"'
  let cs := if quote.isSome then cs.tail else cs
  let label := cs.takeWhile isNameChar
  guard (label.head?.any isLabelStart)
  let after := cs.drop label.length
  match quote with
  | none => return (label, false, indent + label.length + (← lineBreak? after))
  | some quote =>
    guard (after.head? = some quote)
    return (label, quote = '\'', indent + label.length + 2 + (← lineBreak? after.tail))

/-- Characters of a run of digits. An underscore belongs to it if a digit follows. -/
def digits (p : Char → Bool) : List Char → Nat
  | [] => 0
  | [c] => if p c then 1 else 0
  | c :: d :: rest =>
    if p c then digits p (d :: rest) + 1
    else if c = '_' ∧ p d then digits p rest + 2
    else 0

def isHexDigit (c : Char) : Bool :=
  c.isDigit || ('a' ≤ c && c ≤ 'f') || ('A' ≤ c && c ≤ 'F')

/-- The digits of the number system that a letter after a zero stands for. -/
def basedDigit (letter : Char) : Char → Bool :=
  match letter.toLower with
  | 'x' => isHexDigit
  | 'b' => fun c => c == '0' || c == '1'
  | 'o' => fun c => '0' ≤ c && c ≤ '7'
  | _ => fun _ => false

def exponent (cs : List Char) : Nat :=
  match cs with
  | c :: rest =>
    if c = 'e' ∨ c = 'E' then
      let sign := if rest.head?.any fun d => d == '+' || d == '-' then 1 else 0
      if (rest.drop sign).head?.any Char.isDigit then
        1 + sign + digits Char.isDigit (rest.drop sign)
      else 0
    else 0
  | [] => 0

def numberLength (cs : List Char) : Nat :=
  let decimal :=
    let whole := digits Char.isDigit cs
    let fraction := match cs.drop whole with
      | '.' :: rest => 1 + digits Char.isDigit rest
      | _ => 0
    whole + fraction + exponent (cs.drop (whole + fraction))
  match cs with
  | '0' :: letter :: digit :: rest =>
    if basedDigit letter digit then 2 + digits (basedDigit letter) (digit :: rest) else decimal
  | _ => decimal

/-- Characters of a name from one of its characters on. A separator belongs to the name if another
part follows it. -/
def nameExtent : List Char → Nat
  | [] => 0
  | c :: rest =>
    if isNameChar c ∨ (c = '\\' ∧ rest.head?.any isNameStart) then nameExtent rest + 1 else 0

/-- Characters and form of the name at the start of the text. A visibility for writing is one
name. In code inserted into a text, a backslash behind a name belongs to the text and not to the
name. -/
def nameLength (inserted : Bool) (cs : List Char) : Option (Nat × NameForm) :=
  let length := if inserted && cs.head? != some '\\' then (cs.takeWhile isNameChar).length
    else nameExtent cs
  match cs with
  | [] => none
  | c :: _ =>
    if c = '\\' then if 0 < length then some (length, .absolute) else none
    else if !isNameStart c then none
    else if (cs.take length).contains '\\' then some (length, .qualified)
    else if visibilities.contains (.ofList (Text.lowerAscii (cs.take length))) &&
        Text.sameIgnoringCase ((cs.drop length).take writeMark.length) writeMark then
      some (length + writeMark.length, .plain)
    else some (length, .plain)

/-- Characters that spell a word in lower case, if the text starts with it. Neither case nor white
space counts. -/
def spelled : List Char → List Char → Option Nat
  | [], _ => some 0
  | _ :: _, [] => none
  | letter :: word, c :: rest =>
    if isSpace c then (spelled (letter :: word) rest).map (· + 1)
    else if c.toLower = letter then (spelled word rest).map (· + 1)
    else none

def castTypes : List String := [
  "int", "integer", "bool", "boolean", "float", "double", "real", "string", "binary", "array",
  "object", "unset", "void"]

/-- Characters of a type in brackets that converts what follows. -/
def castLength? (cs : List Char) : Option Nat :=
  castTypes.findSome? fun type => spelled ('(' :: type.toList ++ [')']) cs

/-- Operators of more than one character, the longer ones first. -/
def longMarks : List String := [
  "<=>", "**=", "...", "<<=", ">>=", "===", "!==", "??=", "?->",
  "||", "&&", "??", "++", "--", "+=", "-=", "*=", "/=", ".=", "%=", "&=", "|=", "^=", "->", "=>",
  "::", "==", "!=", "<>", "<=", ">=", "<<", ">>", "**", "|>", "#[", "$\x7b"]

def shortMarks : List Char :=
  ['(', ')', '[', ']', '{', '}', ';', ',', '.', '+', '-', '*', '/', '%', '=', '<', '>', '!', '?',
    ':', '&', '|', '^', '~', '@', '$', '\\']

def operator? (cs : List Char) : Option String :=
  match longMarks.find? fun text => text.toList.isPrefixOf cs with
  | some text => some text
  | none => cs.head?.bind fun c => if shortMarks.contains c then some (.singleton c) else none

end AutoloadIndex.Program
