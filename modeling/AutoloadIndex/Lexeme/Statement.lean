import AutoloadIndex.Lexeme.Basic

set_option autoImplicit false

/-!
What can be told from a few lexemes without a grammar: where statements start, which keyword starts
them, and where brackets close.
-/

namespace AutoloadIndex

inductive Keyword where
  | haltCompiler
  | namespaceScope
  | classDecl
  | interfaceDecl
  | traitDecl
  | enumDecl
  | functionDecl
  | typeDecl
  | constDecl
  | defineCall
deriving DecidableEq, Repr

namespace Keyword

/-- A keyword in lower case; opaque aliases count as types. -/
def ofLower? (word : String) : Option Keyword :=
  match word with
  | "__halt_compiler" => some haltCompiler
  | "namespace" => some namespaceScope
  | "class" => some classDecl
  | "interface" => some interfaceDecl
  | "trait" => some traitDecl
  | "enum" => some enumDecl
  | "function" => some functionDecl
  | "type" => some typeDecl
  | "newtype" => some typeDecl
  | "const" => some constDecl
  | "define" => some defineCall
  | _ => none

/-- Keywords are recognised in any case and with separators in front of them. -/
def ofWord? (word : List Char) : Option Keyword :=
  ofLower? (.ofList (Text.lowerAscii (Text.trimStart '\\' word)))

end Keyword

namespace Token

def isWord (word : String) : Token → Bool
  | ident text => Text.sameIgnoringCase text word.toList
  | _ => false

def name? : Token → Option (List Char)
  | ident text => some text
  | _ => none

def isPunct (marks : List Char) : Token → Bool
  | punct mark => marks.contains mark
  | _ => false

def isModifier (token : Token) : Bool :=
  token.isWord "abstract" || token.isWord "final" || token.isWord "readonly"

def endsStatement : Token → Bool
  | openTag | closeTag => true
  | token => token.isPunct [';', '{', '}', ']'] || token.isModifier

end Token

def startsStatement (previous : Option Token) : Bool := previous.all Token.endsStatement

namespace Lexeme

def ahead (lexemes : List Lexeme) (n : Nat) : Option Token := lexemes[n]?.map Lexeme.token

def nameAhead (lexemes : List Lexeme) (n : Nat) : Option (List Char) :=
  (ahead lexemes n).bind Token.name?

def punctAhead (marks : List Char) (lexemes : List Lexeme) (n : Nat) : Bool :=
  (ahead lexemes n).any (Token.isPunct marks)

def wordAhead (word : String) (lexemes : List Lexeme) (n : Nat) : Bool :=
  (ahead lexemes n).any (Token.isWord word)

/-- Number of lexemes up to the `>` that closes all open angle brackets. A brace or a semicolon ends
the search, and so does a `>` without a partner. -/
def closingAngle (depth : Nat) : List Lexeme → Option Nat
  | [] => none
  | lexeme :: rest =>
    if lexeme.token = .punct '<' then (closingAngle (depth + 1) rest).map (· + 1)
    else if lexeme.token = .punct '>' then
      match depth with
      | 0 => none
      | 1 => some 0
      | depth + 2 => (closingAngle (depth + 1) rest).map (· + 1)
    else if lexeme.token.isPunct ['{', '}', ';'] then none
    else (closingAngle depth rest).map (· + 1)

def matchingAngle (lexemes : List Lexeme) : Option Nat := closingAngle 0 lexemes

def closingBrace (depth : Nat) : List Lexeme → Option Nat
  | [] => none
  | lexeme :: rest =>
    if lexeme.token = .punct '{' then (closingBrace (depth + 1) rest).map (· + 1)
    else if lexeme.token = .punct '}' then
      match depth with
      | 0 => none
      | 1 => some 0
      | depth + 2 => (closingBrace (depth + 1) rest).map (· + 1)
    else (closingBrace depth rest).map (· + 1)

def matchingBrace (lexemes : List Lexeme) : Option Nat := closingBrace 0 lexemes

/-- Number of lexemes up to a semicolon outside all brackets; a close tag ends the search. -/
def statementEnd (depth : Nat) : List Lexeme → Option Nat
  | [] => none
  | lexeme :: rest =>
    if lexeme.token.isPunct ['(', '[', '{'] then (statementEnd (depth + 1) rest).map (· + 1)
    else if lexeme.token.isPunct [')', ']', '}'] then (statementEnd (depth - 1) rest).map (· + 1)
    else if lexeme.token = .punct ';' ∧ depth = 0 then some 0
    else if lexeme.token = .closeTag then none
    else (statementEnd depth rest).map (· + 1)

/-- Whether what follows the keyword of a type is a name and the start of its definition. -/
def opensAlias (afterKeyword : List Lexeme) : Bool :=
  punctAhead ['=', '<'] afterKeyword 1 || wordAhead "as" afterKeyword 1

end Lexeme

end AutoloadIndex
