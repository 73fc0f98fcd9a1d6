import AutoloadIndex.Lexeme.Lexer
import AutoloadIndex.Proofs.Slices

set_option autoImplicit false

/-!
The lexer on bytes. A position goes through the UTF-8 form of a source, one or more bytes at a time,
and nothing in its type keeps it inside the source or between characters. What could go wrong is a
failure of its own, beside the faults of the source.
-/

namespace AutoloadIndex

namespace Text

/-- The texts in front of and behind an offset; none if it lies inside a character or behind the
end. -/
def splitAt? : List Char → Nat → Option (List Char × List Char)
  | text, 0 => some ([], text)
  | [], _ + 1 => none
  | c :: rest, offset + 1 =>
    if c.utf8Size ≤ offset + 1 then
      (splitAt? rest (offset + 1 - c.utf8Size)).map fun (front, back) => (c :: front, back)
    else none

def slice? (text : List Char) (start stop : Nat) : Option (List Char) :=
  if start ≤ stop then do
    let (_, back) ← splitAt? text start
    let (slice, _) ← splitAt? back (stop - start)
    return slice
  else none

theorem splitAt?_append (front back : List Char) :
    splitAt? (front ++ back) (width front) = some (front, back) := by
  induction front with
  | nil => cases back <;> rfl
  | cons c rest inductionHypothesis =>
      have positive := c.utf8Size_pos
      obtain ⟨offset, isOffset⟩ : ∃ offset, width (c :: rest) = offset + 1 := by
        refine ⟨width (c :: rest) - 1, ?_⟩
        rw [width_cons]
        omega
      rw [isOffset, List.cons_append, splitAt?, ← isOffset, width_cons,
        if_pos (Nat.le_add_right _ _), Nat.add_sub_cancel_left, inductionHypothesis]
      rfl

theorem slice?_append (front slice back : List Char) :
    slice? (front ++ (slice ++ back)) (width front) (width front + width slice) = some slice := by
  simp [slice?, splitAt?_append]

end Text

namespace ByteLexer

open Lexeme (Mode Quote isSpace isIndent isNameStart isNameChar isNumberChar)

inductive Failure where
  /-- The source is at fault. -/
  | fault (error : LexError)
  /-- A round of a loop does not move forward. -/
  | stuck
  /-- A lexeme or a comment goes beyond the end of the source. -/
  | overrun
  /-- A brace is closed that was not opened. -/
  | underflow
  /-- A slice of the source starts or ends inside a character. -/
  | brokenSlice
deriving DecidableEq, Repr

/-- The byte at a position, as the character of the same number. -/
def byteAt (source : List UInt8) (position : Nat) : Option Char :=
  source[position]?.map Char.ofUInt8

def skipWhile (source : List UInt8) (p : Char → Bool) (position : Nat) : Nat :=
  if position < source.length ∧ (byteAt source position).any p then
    skipWhile source p (position + 1)
  else position
termination_by source.length - position
decreasing_by all_goals omega

def skipLine (source : List UInt8) (position : Nat) : Nat :=
  if position < source.length then
    if byteAt source position = some '\n' ∨
        (byteAt source position = some '?' ∧ byteAt source (position + 1) = some '>') then position
    else skipLine source (position + 1)
  else position
termination_by source.length - position
decreasing_by all_goals omega

def skipBlock (source : List UInt8) (position : Nat) : Option Nat :=
  if position < source.length then
    if byteAt source position = some '*' ∧ byteAt source (position + 1) = some '/' then
      some (position + 2)
    else skipBlock source (position + 1)
  else none
termination_by source.length - position
decreasing_by all_goals omega

mutual

/-- Behind a string, from a position inside of it. A backslash hides a byte, which may be the first
one of a longer character or lie behind the end. -/
def skipQuoted (source : List UInt8) (quote : Quote) (opened position : Nat) : Except Failure Nat :=
  if position < source.length then
    if byteAt source position = some '\\' then skipQuoted source quote opened (position + 2)
    else if byteAt source position = some quote.mark then .ok (position + 1)
    else if quote.interpolates ∧ byteAt source position = some '{' ∧
        byteAt source (position + 1) = some '$' then do
      let next ← skipInterpolation source position 0 position
      if position < next then skipQuoted source quote opened next else .error .stuck
    else if quote.interpolates ∧ byteAt source position = some '$' ∧
        byteAt source (position + 1) = some '{' then do
      let next ← skipInterpolation source (position + 1) 0 (position + 1)
      if position < next then skipQuoted source quote opened next else .error .stuck
    else skipQuoted source quote opened (position + 1)
  else .error (.fault ⟨.unterminatedString, opened⟩)
termination_by (source.length - position, 1)
decreasing_by all_goals first | (apply Prod.Lex.left; omega) | (apply Prod.Lex.right; omega)

/-- Behind an interpolation. Its own brace is the first one to be counted. -/
def skipInterpolation (source : List UInt8) (opened depth position : Nat) : Except Failure Nat :=
  if position < source.length then
    if byteAt source position = some '{' then
      skipInterpolation source opened (depth + 1) (position + 1)
    else if byteAt source position = some '}' then
      if depth = 0 then .error .underflow
      else if depth = 1 then .ok (position + 1)
      else skipInterpolation source opened (depth - 1) (position + 1)
    else if byteAt source position = some '\'' then do
      let next ← skipQuoted source .single position (position + 1)
      if position < next then skipInterpolation source opened depth next else .error .stuck
    else if byteAt source position = some '"' then do
      let next ← skipQuoted source .double position (position + 1)
      if position < next then skipInterpolation source opened depth next else .error .stuck
    else skipInterpolation source opened depth (position + 1)
  else .error (.fault ⟨.unterminatedInterpolation, opened⟩)
termination_by (source.length - position, 0)
decreasing_by all_goals (apply Prod.Lex.left; omega)

end

def cut (text : List Char) (start stop : Nat) : Except Failure (List Char) :=
  match Text.slice? text start stop with
  | some slice => .ok slice
  | none => .error .brokenSlice

def skipLabel (text : List Char) (start : Nat) : Except Failure (List Char × Nat) := do
  let source := Text.bytes text
  let indented := skipWhile source isIndent (start + 3)
  let quote := (byteAt source indented).filter fun c => c == '\'' || c == '"'
  let opened := if quote.isSome then indented + 1 else indented
  let closed := skipWhile source isNameChar opened
  let label ← cut text opened closed
  if label.isEmpty then .error (.fault ⟨.missingLabel, start⟩)
  else match quote with
    | none => return (label, closed)
    | some quote =>
      if byteAt source closed = some quote then return (label, closed + 1)
      else .error (.fault ⟨.unterminatedLabel, start⟩)

def closingLabel? (source label : List UInt8) (position : Nat) : Option Nat :=
  let line := skipWhile source isIndent position
  let stop := line + label.length
  if (source.drop line).take label.length = label ∧ (byteAt source stop).all (!isNameChar ·) then
    some stop
  else none

def skipBody (source label : List UInt8) (position : Nat) : Option Nat :=
  if position < source.length then
    let closed :=
      if byteAt source position = some '\n' then closingLabel? source label (position + 1) else none
    if closed.isSome then closed else skipBody source label (position + 1)
  else none
termination_by source.length - position
decreasing_by all_goals omega

def skipHeredoc (text : List Char) (start : Nat) : Except Failure Nat := do
  let (label, position) ← skipLabel text start
  match skipBody (Text.bytes text) (Text.bytes label) position with
  | some stop => return stop
  | none => .error (.fault ⟨.unterminatedHeredoc, start⟩)

def spells (source : List UInt8) (position : Nat) : List Char → Bool
  | [] => true
  | c :: word =>
    (byteAt source position).any (·.toLower == c.toLower) && spells source (position + 1) word

/-- The number of bytes of the open tag whose two marks end at the position. -/
def tagLength? (source : List UInt8) (position : Nat) : Option Nat :=
  if spells source position ['p', 'h', 'p'] ∧ (byteAt source (position + 3)).all isSpace then some 5
  else if spells source position ['h', 'h'] ∧
      (byteAt source (position + 2)).all (!isNameChar ·) then some 4
  else if byteAt source position = some '=' then some 3
  else if (byteAt source position).all isSpace then some 2
  else none

def skipHtml (source : List UInt8) (position : Nat) : Option (Nat × Nat) :=
  if position < source.length then
    if byteAt source position = some '<' ∧ byteAt source (position + 1) = some '?' then
      match tagLength? source (position + 2) with
      | some length => some (position, position + length)
      | none => skipHtml source (position + 2)
    else skipHtml source (position + 1)
  else none
termination_by source.length - position
decreasing_by all_goals omega

inductive Round where
  | done
  | gap (next : Nat)
  | lexeme (found : Lexeme)
deriving DecidableEq, Repr

def stringRound (text : List Char) (quote : Quote) (start : Nat) : Except Failure Round := do
  let stop ← skipQuoted (Text.bytes text) quote start (start + 1)
  let slice ← cut text start stop
  return .lexeme ⟨.str slice, start, stop⟩

def codeRound (text : List Char) (start : Nat) (c : Char) : Except Failure Round :=
  let source := Text.bytes text
  let next := byteAt source (start + 1)
  let afterNext := byteAt source (start + 2)
  if c = '?' ∧ next = some '>' then .ok (.lexeme ⟨.closeTag, start, start + 2⟩)
  else if c = '?' ∧ next = some '-' ∧ afterNext = some '>' then
    .ok (.lexeme ⟨.arrow, start, start + 3⟩)
  else if c = '-' ∧ next = some '>' then .ok (.lexeme ⟨.arrow, start, start + 2⟩)
  else if c = ':' ∧ next = some ':' then .ok (.lexeme ⟨.doubleColon, start, start + 2⟩)
  else if c = '#' then
    if next = some '[' then .ok (.lexeme ⟨.punct '#', start, start + 1⟩)
    else .ok (.gap (skipLine source start))
  else if c = '/' ∧ next = some '/' then .ok (.gap (skipLine source start))
  else if c = '/' ∧ next = some '*' then
    match skipBlock source (start + 2) with
    | some stop => .ok (.gap stop)
    | none => .error (.fault ⟨.unterminatedComment, start⟩)
  else if c = '\'' then stringRound text .single start
  else if c = '"' then stringRound text .double start
  else if c = '\x60' then do
    let stop ← skipQuoted source .backtick start (start + 1)
    return .lexeme ⟨.template, start, stop⟩
  else if c = '<' ∧ next = some '<' ∧ afterNext = some '<' then do
    let stop ← skipHeredoc text start
    return .lexeme ⟨.template, start, stop⟩
  else if c = '$' ∧ next.any (fun d => isNameStart d && d != '\\') then
    .ok (.lexeme ⟨.varName, start, skipWhile source isNameChar (start + 1)⟩)
  else if c.isDigit then .ok (.lexeme ⟨.number, start, skipWhile source isNumberChar start⟩)
  else if isNameStart c then do
    let stop := skipWhile source isNameChar start
    let name ← cut text start stop
    return .lexeme ⟨.ident name, start, stop⟩
  else .ok (.lexeme ⟨.punct c, start, start + 1⟩)

/-- A round from a position on: up to the next lexeme or comment and through it. -/
def round (text : List Char) (mode : Mode) (position : Nat) : Except Failure Round :=
  let source := Text.bytes text
  match mode with
  | .html =>
    match skipHtml source position with
    | none => .ok .done
    | some (start, stop) => .ok (.lexeme ⟨.openTag, start, stop⟩)
  | .code =>
    let start := skipWhile source isSpace position
    match byteAt source start with
    | none => .ok .done
    | some c => codeRound text start c

def run (text : List Char) (mode : Mode) (position : Nat) : Except Failure (List Lexeme) :=
  match round text mode position with
  | .error failure => .error failure
  | .ok .done => .ok []
  | .ok (.gap next) =>
    if next ≤ position then .error .stuck
    else if Text.width text < next then .error .overrun
    else run text mode next
  | .ok (.lexeme found) =>
    if found.stop ≤ position then .error .stuck
    else if Text.width text < found.stop then .error .overrun
    else do
      let later ← run text found.token.following found.stop
      return found :: later
termination_by Text.width text - position
decreasing_by all_goals omega

end ByteLexer

end AutoloadIndex
