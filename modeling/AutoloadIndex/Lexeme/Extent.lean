import AutoloadIndex.Lexeme.Basic

set_option autoImplicit false

/-!
Extents: how many characters a comment, string or heredoc takes up, counted from a given place.
A failure names the fault and the place of the delimiter to blame, counted in the same way.
-/

namespace AutoloadIndex.Lexeme

/-- Characters up to a line break or a close tag, neither of which belongs to the comment. -/
def lineComment : List Char → Nat
  | [] => 0
  | c :: rest =>
    if c = '\n' ∨ (c = '?' ∧ rest.head? = some '>') then 0 else lineComment rest + 1

def blockComment : List Char → Option Nat
  | [] => none
  | c :: rest =>
    if c = '*' ∧ rest.head? = some '/' then some 2 else (blockComment rest).map (· + 1)

inductive Quote where
  | single
  | double
  | backtick
deriving DecidableEq, Repr

namespace Quote

def mark : Quote → Char
  | single => '\''
  | double => '"'
  | backtick => '\x60'

def interpolates (quote : Quote) : Bool := quote != single

end Quote

/-- What is open at a place inside a string: the string itself, or the braces of an interpolation,
whose inner strings are open in their turn. -/
inductive Frame where
  | quoted (quote : Quote) (opened : Nat)
  | braces (depth : Nat) (opened : Nat)
deriving DecidableEq, Repr

/-- The fault of a text that ends while the frame is the innermost one. -/
def Frame.fault : Frame → LexFault × Nat
  | quoted _ opened => (.unterminatedString, opened)
  | braces _ opened => (.unterminatedInterpolation, opened)

/-- Place after the end of the outermost frame, from a place at which `top` is open inside `below`.
In a string a backslash hides the next character, and `{$` and `${` open an interpolation; in an
interpolation braces are counted and quotes open inner strings. -/
def literalEnd (top : Frame) (below : List Frame) (place : Nat) :
    List Char → Except (LexFault × Nat) Nat
  | [] => .error top.fault
  | c :: rest =>
    match top with
    | .quoted quote _ =>
      if c = '\\' then
        match rest with
        | [] => .error top.fault
        | _ :: more => literalEnd top below (place + 2) more
      else if c = quote.mark then
        match below with
        | [] => .ok (place + 1)
        | outer :: others => literalEnd outer others (place + 1) rest
      else if quote.interpolates ∧ c = '{' ∧ rest.head? = some '$' then
        literalEnd (.braces 1 place) (top :: below) (place + 1) rest
      else if quote.interpolates ∧ c = '$' then
        match rest with
        | [] => .error top.fault
        | d :: more =>
          if d = '{' then literalEnd (.braces 1 (place + 1)) (top :: below) (place + 2) more
          else literalEnd top below (place + 1) (d :: more)
      else literalEnd top below (place + 1) rest
    | .braces depth opened =>
      if c = '{' then literalEnd (.braces (depth + 1) opened) below (place + 1) rest
      else if c = '}' then
        if 1 < depth then literalEnd (.braces (depth - 1) opened) below (place + 1) rest
        else match below with
          | [] => .ok (place + 1)
          | outer :: others => literalEnd outer others (place + 1) rest
      else if c = '\'' then literalEnd (.quoted .single place) (top :: below) (place + 1) rest
      else if c = '"' then literalEnd (.quoted .double place) (top :: below) (place + 1) rest
      else literalEnd top below (place + 1) rest

/-- Characters of a string after its opening quote. -/
def quotedExtent (quote : Quote) (rest : List Char) : Except (LexFault × Nat) Nat :=
  (literalEnd (.quoted quote 0) [] 1 rest).map (· - 1)

/-- Characters up to the end of the label, if this line closes a heredoc. -/
def closingLine (label line : List Char) : Option Nat :=
  let indent := line.takeWhile isIndent
  let after := line.drop indent.length
  if label.isPrefixOf after ∧ endsOrStarts (!isNameChar ·) (after.drop label.length) then
    some (indent.length + label.length)
  else none

def heredocBody (label : List Char) : List Char → Option Nat
  | [] => none
  | c :: rest =>
    match (if c = '\n' then closingLine label rest else none) with
    | some extent => some (extent + 1)
    | none => (heredocBody label rest).map (· + 1)

/-- Opening label of a heredoc: its text and the characters it takes up with indentation and
quotes. -/
def openingLabel (cs : List Char) : Except LexFault (List Char × Nat) :=
  let indent := (cs.takeWhile isIndent).length
  let cs := cs.drop indent
  let quote := cs.head?.filter fun c => c == '\'' || c == '"'
  let cs := if quote.isSome then cs.tail else cs
  let label := cs.takeWhile isNameChar
  if label.isEmpty then .error .missingLabel
  else match quote with
    | none => .ok (label, indent + label.length)
    | some quote =>
      if (cs.drop label.length).head? = some quote then .ok (label, indent + label.length + 2)
      else .error .unterminatedLabel

def heredocExtent (cs : List Char) : Except LexFault Nat := do
  let (label, head) ← openingLabel cs
  match heredocBody label (cs.drop head) with
  | some body => .ok (head + body)
  | none => .error .unterminatedHeredoc

end AutoloadIndex.Lexeme
