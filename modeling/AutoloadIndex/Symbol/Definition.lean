import AutoloadIndex.Lexeme.Basic
import AutoloadIndex.Path
import AutoloadIndex.Symbol.Name

set_option autoImplicit false

/-!
Definitions, and parsers as functions that find them in the bytes of a file. Parsers are
interchangeable: nothing else in the library depends on how one works.
-/

namespace AutoloadIndex

structure Symbol where
  kind : Kind
  name : String
deriving DecidableEq, Repr

structure Definition extends Symbol where
  source : Path
deriving DecidableEq, Repr

def Symbol.definedIn (symbol : Symbol) (source : Path) : Definition := ⟨symbol, source⟩

/-- Why a file cannot be parsed; lines are counted from one. -/
inductive ParseCause where
  | lexical (fault : LexFault) (line : Nat)
  | strayBrace (line : Nat)
  | openBrace (line : Nat)
  | malformed
deriving DecidableEq, Repr

def ParseCause.message : ParseCause → String
  | lexical fault line => fault.message ++ " on line " ++ toString line
  | strayBrace line => "unexpected '\x7d' on line " ++ toString line
  | openBrace line => "unclosed '\x7b' on line " ++ toString line
  | malformed => "not a well-formed program"

structure ParseError where
  path : Path
  cause : ParseCause
deriving DecidableEq, Repr

def ParseError.message (e : ParseError) : String :=
  "Failed to parse " ++ e.path.spelling ++ ": " ++ e.cause.message

/-- Finds the top-level definitions in the content of a file. -/
abbrev Parser := List UInt8 → Path → Except ParseError (List Definition)

end AutoloadIndex
