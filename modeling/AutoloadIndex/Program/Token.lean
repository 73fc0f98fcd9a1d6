import AutoloadIndex.Text.Basic

set_option autoImplicit false

/-!
Tokens of the full grammar of PHP. Unlike the lexemes of the fact scan they tell all operators and
the parts of interpolated strings apart.
-/

namespace AutoloadIndex.Program

/-- Whether a name is a single identifier, has separators inside, or starts with one. -/
inductive NameForm where
  | plain
  | qualified
  | absolute
deriving DecidableEq, Repr

inductive Token where
  | html
  | openTag
  | openEcho
  | closeTag
  | name (form : NameForm) (text : String)
  | varName
  | number
  /-- String without interpolation, with its quotes. -/
  | literal (text : String)
  /-- Type in brackets in front of what is converted to it. -/
  | cast
  | templateOpen
  | templateText
  | templateClose
  /-- Operator or punctuation. -/
  | mark (text : String)
deriving DecidableEq, Repr

structure Lexeme where
  token : Token
  start : Nat
  stop : Nat
deriving DecidableEq, Repr

def lowerWord (text : String) : String := .ofList (Text.lowerAscii text.toList)

/-- The word of a plain name in lower case; empty for every other token. -/
def Token.word : Token → String
  | name .plain text => lowerWord text
  | _ => ""

def Token.symbol : Token → String
  | mark text => text
  | _ => ""

def Token.isName : Token → Bool
  | name _ _ => true
  | _ => false

def Token.isPlain : Token → Bool
  | name .plain _ => true
  | _ => false

def Token.endsStatement : Token → Bool
  | closeTag => true
  | token => token.symbol == ";"

def visibilities : List String := ["public", "protected", "private"]

/-- What makes a visibility one for writing only; it follows the word without a gap. -/
def writeMark : List Char := ['(', 's', 'e', 't', ')']

/-- Words that may stand in front of a class or a member. Whether they make sense there is not a
matter of form. -/
def modifiers : List String :=
  visibilities ++ visibilities.map (· ++ .ofList writeMark) ++
    ["static", "final", "abstract", "readonly"]

/-- Words with a meaning of their own, which are no constants. They may be declared all the same. -/
def reservedWords : List String :=
  visibilities ++ visibilities.map (· ++ .ofList writeMark) ++ [
  "__halt_compiler", "abstract", "and", "array", "as", "break", "callable", "case", "catch",
  "class", "clone", "const", "continue", "declare", "default", "die", "do", "echo", "else",
  "elseif", "empty", "enddeclare", "endfor", "endforeach", "endif", "endswitch", "endwhile",
  "eval", "exit", "extends", "final", "finally", "fn", "for", "foreach", "function", "global",
  "goto", "if", "implements", "include", "include_once", "instanceof", "insteadof", "interface",
  "isset", "namespace", "new", "or", "print", "require", "require_once", "return", "static",
  "switch", "throw", "trait", "try", "unset", "use", "var", "while", "xor", "yield"]

def untypedWords : List String := [
  "list", "match", "readonly", "__class__", "__dir__", "__file__", "__function__", "__line__",
  "__method__", "__namespace__", "__property__", "__trait__"]

def typeWords : List String := ["array", "callable", "static"]

def namesType (word : String) : Bool :=
  typeWords.contains word || !(reservedWords ++ untypedWords).contains word

end AutoloadIndex.Program
