import AutoloadIndex.Text.Basic

set_option autoImplicit false

/-!
Lexemes: as much of the source as is needed to find declarations. Strings, heredocs, numbers and
variables are placeholders; comments, white space and inline HTML lie between lexemes.
-/

namespace AutoloadIndex

inductive Token where
  | openTag
  | closeTag
  /-- Keyword or name, which may contain namespace separators. -/
  | ident (text : List Char)
  | varName
  /-- Single- or double-quoted string with its quotes. -/
  | str (text : List Char)
  /-- Heredoc, nowdoc or backtick string. -/
  | template
  | number
  | arrow
  | doubleColon
  | punct (mark : Char)
deriving DecidableEq, Repr

structure Lexeme where
  token : Token
  start : Nat
  stop : Nat
deriving DecidableEq, Repr

namespace Lexeme

inductive Mode where
  | html
  | code
deriving DecidableEq, Repr

def isSpace (c : Char) : Bool :=
  c == ' ' || c == '\t' || c == '\n' || c == '\x0c' || c == '\r'

def isIndent (c : Char) : Bool := c == ' ' || c == '\t'

/-- Every character beyond ASCII may stand in a name. -/
def isNameStart (c : Char) : Bool := c.isAlpha || c == '_' || c == '\\' || 0x80 ≤ c.toNat

def isNameChar (c : Char) : Bool := c.isAlphanum || c == '_' || c == '\\' || 0x80 ≤ c.toNat

def isNumberChar (c : Char) : Bool := c.isAlphanum || c == '_' || c == '.'

/-- Whether the text is empty or starts with a character of the class. -/
def endsOrStarts (p : Char → Bool) (cs : List Char) : Bool := cs.head?.all p

end Lexeme

/-- A close tag ends the code, everything else leaves or puts the lexer into code. -/
def Token.following : Token → Lexeme.Mode
  | closeTag => .html
  | _ => .code

inductive LexFault where
  | unterminatedComment
  | unterminatedString
  | unterminatedInterpolation
  | missingLabel
  | unterminatedLabel
  | unterminatedHeredoc
deriving DecidableEq, Repr

def LexFault.message : LexFault → String
  | unterminatedComment => "unterminated comment"
  | unterminatedString => "unterminated string"
  | unterminatedInterpolation => "unterminated string interpolation"
  | missingLabel => "missing heredoc label"
  | unterminatedLabel => "unterminated heredoc label"
  | unterminatedHeredoc => "unterminated heredoc"

/-- A fault and the byte offset of the delimiter that opens the faulty text. -/
structure LexError where
  fault : LexFault
  offset : Nat
deriving DecidableEq, Repr

end AutoloadIndex
