import AutoloadIndex.Lexeme.Extent

set_option autoImplicit false

/-!
The lexer cuts a source into lexemes and the gaps between them. It reads one piece at a time: a
piece is the first character together with a number of further ones, so nothing is lost and every
piece moves forward.
-/

namespace AutoloadIndex.Lexeme

/-- A gap or a lexeme, with the number of its characters after the first. -/
inductive Piece where
  | gap (more : Nat)
  | lexeme (token : Token) (more : Nat)
deriving DecidableEq, Repr

def startsWithIgnoringCase (word cs : List Char) : Bool :=
  Text.sameIgnoringCase word (cs.take word.length)

/-- Length of the open tag at the start of the text, which is counted from its second character. -/
def openTag? (cs : List Char) : Option Nat :=
  match cs with
  | '?' :: rest =>
    if startsWithIgnoringCase ['p', 'h', 'p'] rest ∧ endsOrStarts isSpace (rest.drop 3) then some 4
    else if startsWithIgnoringCase ['h', 'h'] rest ∧ endsOrStarts (!isNameChar ·) (rest.drop 2) then
      some 3
    else if rest.head? = some '=' then some 2
    else if endsOrStarts isSpace rest then some 1
    else none
  | _ => none

def htmlPiece (c : Char) (rest : List Char) : Piece :=
  match (if c = '<' then openTag? rest else none) with
  | some more => .lexeme .openTag more
  | none => .gap 0

def quotedPiece (quote : Quote) (rest : List Char) (token : Nat → Token) :
    Except (LexFault × Nat) Piece :=
  (quotedExtent quote rest).map fun more => .lexeme (token more) more

def stringPiece (quote : Quote) (rest : List Char) : Except (LexFault × Nat) Piece :=
  quotedPiece quote rest fun more => .str (quote.mark :: rest.take more)

def codePiece (c : Char) (rest : List Char) : Except (LexFault × Nat) Piece :=
  if isSpace c then .ok (.gap 0)
  else if c = '?' ∧ rest.head? = some '>' then .ok (.lexeme .closeTag 1)
  else if c = '?' ∧ rest.take 2 = ['-', '>'] then .ok (.lexeme .arrow 2)
  else if c = '-' ∧ rest.head? = some '>' then .ok (.lexeme .arrow 1)
  else if c = ':' ∧ rest.head? = some ':' then .ok (.lexeme .doubleColon 1)
  else if c = '#' then
    if rest.head? = some '[' then .ok (.lexeme (.punct '#') 0) else .ok (.gap (lineComment rest))
  else if c = '/' ∧ rest.head? = some '/' then .ok (.gap (lineComment rest))
  else if c = '/' ∧ rest.head? = some '*' then
    match blockComment rest.tail with
    | some more => .ok (.gap (more + 1))
    | none => .error (.unterminatedComment, 0)
  else if c = '\'' then stringPiece .single rest
  else if c = '"' then stringPiece .double rest
  else if c = '\x60' then quotedPiece .backtick rest fun _ => .template
  else if c = '<' ∧ rest.take 2 = ['<', '<'] then
    match heredocExtent (rest.drop 2) with
    | .ok more => .ok (.lexeme .template (more + 2))
    | .error fault => .error (fault, 0)
  else if c = '$' ∧ rest.head?.any (fun d => isNameStart d && d != '\\') then
    .ok (.lexeme .varName (rest.takeWhile isNameChar).length)
  else if c.isDigit then .ok (.lexeme .number (rest.takeWhile isNumberChar).length)
  else if isNameStart c then
    let name := rest.takeWhile isNameChar
    .ok (.lexeme (.ident (c :: name)) name.length)
  else .ok (.lexeme (.punct c) 0)

def piece (mode : Mode) (c : Char) (rest : List Char) : Except (LexFault × Nat) Piece :=
  match mode with
  | .html => .ok (htmlPiece c rest)
  | .code => codePiece c rest

def lexFrom (mode : Mode) (offset : Nat) : List Char → Except LexError (List Lexeme)
  | [] => .ok []
  | c :: rest =>
    match piece mode c rest with
    | .error (fault, place) => .error ⟨fault, offset + Text.width ((c :: rest).take place)⟩
    | .ok (.gap more) => lexFrom mode (offset + Text.width (c :: rest.take more)) (rest.drop more)
    | .ok (.lexeme token more) =>
      let stop := offset + Text.width (c :: rest.take more)
      match lexFrom token.following stop (rest.drop more) with
      | .ok lexemes => .ok (⟨token, offset, stop⟩ :: lexemes)
      | .error e => .error e
termination_by cs => cs.length
decreasing_by all_goals simp only [List.length_drop, List.length_cons]; omega

/-- Lexemes of a source, which starts in inline HTML unless it has no open tag. -/
def lex (mode : Mode) (source : List Char) : Except LexError (List Lexeme) := lexFrom mode 0 source

end AutoloadIndex.Lexeme
