import AutoloadIndex.FactScan

set_option autoImplicit false

/-!
A grammar of declarations over tokens. A program is a list of statements, some of them inside the
braces of a namespace. Bodies, headers and statements that declare nothing may hold any tokens, as
long as braces are balanced and no keyword stands where another statement could start.
-/

namespace AutoloadIndex.FactScan

structure Brackets where
  opening : List Char
  closing : List Char

namespace Brackets

def braces : Brackets := ⟨['{'], ['}']⟩

/-- Brackets of all kinds, which are not told apart. -/
def all : Brackets := ⟨['(', '[', '{'], [')', ']', '}']⟩

def step (brackets : Brackets) (depth : Nat) (token : Token) : Nat :=
  if token.isPunct brackets.opening then depth + 1
  else if token.isPunct brackets.closing then depth - 1
  else depth

/-- From a depth to the outside again, without a bracket that closes what is not open. -/
def Closes (brackets : Brackets) (depth : Nat) : List Token → Prop
  | [] => depth = 0
  | token :: rest =>
    (token.isPunct brackets.opening ∨ ¬ token.isPunct brackets.closing ∨ 0 < depth) ∧
      brackets.Closes (brackets.step depth token) rest

/-- Every token outside nested brackets is allowed after the one in front of it. -/
def Outside (brackets : Brackets) (allowed : Option Token → Token → Bool)
    (previous : Option Token) (depth : Nat) : List Token → Prop
  | [] => True
  | token :: rest =>
    (depth = 0 → allowed previous token) ∧
      brackets.Outside allowed (some token) (brackets.step depth token) rest

instance decidableCloses (brackets : Brackets) :
    (depth : Nat) → (tokens : List Token) → Decidable (brackets.Closes depth tokens)
  | depth, [] => inferInstanceAs (Decidable (depth = 0))
  | depth, token :: rest =>
    have := decidableCloses brackets (brackets.step depth token) rest
    inferInstanceAs (Decidable (_ ∧ _))

instance decidableOutside (brackets : Brackets) (allowed : Option Token → Token → Bool) :
    (previous : Option Token) → (depth : Nat) → (tokens : List Token) →
      Decidable (brackets.Outside allowed previous depth tokens)
  | _, _, [] => inferInstanceAs (Decidable True)
  | _, depth, token :: rest =>
    have := decidableOutside brackets allowed (some token) (brackets.step depth token) rest
    inferInstanceAs (Decidable (_ ∧ _))

end Brackets

def Balanced (tokens : List Token) : Prop := Brackets.braces.Closes 0 tokens

def Flat (tokens : List Token) : Prop := ∀ token ∈ tokens, ¬ token.isPunct ['{', '}']

theorem flat_cons {token : Token} {rest : List Token} :
    Flat (token :: rest) ↔ ¬ token.isPunct ['{', '}'] ∧ Flat rest := List.forall_mem_cons

/-- Whether a token is not a keyword, or not at a place where a statement can start. -/
def staysQuiet (previous : Option Token) (token : Token) : Bool :=
  !startsStatement previous || (token.name?.bind Keyword.ofWord?).isNone

/-- Outside nested braces no keyword stands where a statement can start. -/
def Quiet (previous : Option Token) (tokens : List Token) : Prop :=
  Brackets.braces.Outside staysQuiet previous 0 tokens

instance (tokens : List Token) : Decidable (Balanced tokens) :=
  Brackets.decidableCloses _ _ _

instance (tokens : List Token) : Decidable (Flat tokens) :=
  inferInstanceAs (Decidable (∀ token ∈ tokens, ¬ _))

instance (previous : Option Token) (tokens : List Token) : Decidable (Quiet previous tokens) :=
  Brackets.decidableOutside _ _ _ _ _

/-- Whether a token outside brackets does not end the value of a constant. -/
def staysInValue (_ : Option Token) (token : Token) : Bool :=
  !token.isPunct [',', ';'] && token != .closeTag

/-- A constant with its name and the tokens of its value, in which brackets are matched. -/
structure Constant where
  name : List Char
  value : List Token
  matched : Brackets.all.Closes 0 value
  undivided : Brackets.all.Outside staysInValue none 0 value

def Constant.tokens (constant : Constant) : List Token :=
  .ident constant.name :: .punct '=' :: constant.value

def braced (body : List Token) : List Token := .punct '{' :: body ++ [.punct '}']

inductive Statement where
  | classLike (modifiers : List (List Char)) (keyword name : List Char) (header body : List Token)
  | enumeration (keyword name : List Char) (header body : List Token)
  | function (keyword : List Char) (byReference : Bool) (name : List Char) (mark : Char)
      (header body : List Token)
  | typeAlias (keyword name : List Char) (definition : List Token)
  | define (keyword literal : List Char) (arguments : Option (List Token))
  | constants (keyword : List Char) (first : Constant) (others : List Constant)
  /-- The namespace of what follows. -/
  | inScope (keyword name : List Char)
  /-- Anything that declares nothing. -/
  | other (run : List Token)

namespace Statement

/-- Tokens after the keyword of a statement that has one, and otherwise all of them. -/
def rest : Statement → List Token
  | classLike _ _ name header body => .ident name :: header ++ braced body
  | enumeration _ name header body => .ident name :: header ++ braced body
  | function _ byReference name mark header body =>
    (if byReference then [.punct '&'] else []) ++
      .ident name :: .punct mark :: header ++ braced body
  | typeAlias _ name definition => .ident name :: definition ++ [.punct ';']
  | define _ literal arguments =>
    .punct '(' :: .str literal :: arguments.elim [] (.punct ',' :: ·) ++ [.punct ')'] ++
      [.punct ';']
  | constants _ first others =>
    first.tokens ++ others.flatMap (fun constant => .punct ',' :: constant.tokens) ++ [.punct ';']
  | inScope _ name => [.ident name, .punct ';']
  | other run => run

def tokens (statement : Statement) : List Token :=
  match statement with
  | classLike modifiers keyword _ _ _ =>
    modifiers.map Token.ident ++ .ident keyword :: statement.rest
  | enumeration keyword _ _ _ | function keyword _ _ _ _ _ | typeAlias keyword _ _
  | define keyword _ _ | constants keyword _ _ | inScope keyword _ =>
    .ident keyword :: statement.rest
  | other run => run

/-- The keyword spells what it should, names and marks are such that the statement declares
something, braces are balanced, and no other keyword stands where a statement can start. -/
def WellFormed (statement : Statement) : Prop :=
  match statement with
  | classLike modifiers keyword name header body =>
    (∀ word ∈ modifiers, (Token.ident word).isModifier) ∧
      (∃ kind ∈ [Keyword.classDecl, .interfaceDecl, .traitDecl],
        Keyword.ofWord? keyword = some kind) ∧
      ¬ (Token.ident name).isWord "extends" ∧ ¬ (Token.ident name).isWord "implements" ∧
      Flat header ∧ Balanced body ∧ Quiet (some (.ident keyword)) statement.rest
  | enumeration keyword _ header body =>
    Keyword.ofWord? keyword = some .enumDecl ∧
      ((header ++ braced body).head?.any fun token =>
        token.isPunct ['{', ':'] || token.isWord "implements") ∧
      Flat header ∧ Balanced body ∧ Quiet (some (.ident keyword)) statement.rest
  | function keyword _ _ mark header body =>
    Keyword.ofWord? keyword = some .functionDecl ∧ mark ∈ ['(', '<'] ∧
      Flat header ∧ Balanced body ∧ Quiet (some (.ident keyword)) statement.rest
  | typeAlias keyword _ definition =>
    Keyword.ofWord? keyword = some .typeDecl ∧
      (definition.head?.any fun token => token.isPunct ['=', '<'] || token.isWord "as") ∧
      Flat definition ∧ Quiet (some (.ident keyword)) statement.rest
  | define keyword _ arguments =>
    Keyword.ofWord? keyword = some .defineCall ∧ Balanced (arguments.getD []) ∧
      Quiet (some (.ident keyword)) statement.rest
  | constants keyword _ _ => Keyword.ofWord? keyword = some .constDecl
  | inScope keyword _ => Keyword.ofWord? keyword = some .namespaceScope
  | other run =>
    Balanced run ∧ Quiet none run ∧ run.getLast?.all Token.endsStatement

def symbols (scope : Option String) : Statement → List Symbol
  | classLike _ _ name _ _ | enumeration _ name _ _ =>
    [⟨.classLike, Name.qualify scope (.ofList name)⟩]
  | function _ _ name _ _ _ => [⟨.function, Name.qualify scope (.ofList name)⟩]
  | typeAlias _ name _ => [⟨.typeAlias, Name.qualify scope (.ofList name)⟩]
  | define _ literal _ =>
    ((Literal.value literal).map fun name => ⟨.constant, Name.relative (.ofList name)⟩).toList
  | constants _ first others => (first :: others).map fun constant =>
      ⟨.constant, Name.qualify scope (.ofList constant.name)⟩
  | inScope _ _ | other _ => []

def scopeAfter (scope : Option String) : Statement → Option String
  | inScope _ name => some (Name.bare (.ofList name))
  | _ => scope

instance : (statement : Statement) → Decidable statement.WellFormed
  | classLike .. | enumeration .. | function .. | typeAlias .. | define .. | other .. =>
    inferInstanceAs (Decidable (_ ∧ _))
  | constants .. | inScope .. => inferInstanceAs (Decidable (_ = _))

end Statement

structure Item where
  statement : Statement
  wellFormed : statement.WellFormed

/-- An item at the top, or items in the braces of a namespace, which need not have a name. -/
inductive Part where
  | item (item : Item)
  | block (keyword : List Char) (isKeyword : Keyword.ofWord? keyword = some .namespaceScope)
      (name : Option (List Char)) (items : List Item)

/-- What is declared one after the other, where each one may set the namespace of those behind. -/
def inTurn {α : Type} (symbols : Option String → α → List Symbol)
    (scopeAfter : Option String → α → Option String) (scope : Option String) : List α → List Symbol
  | [] => []
  | first :: rest => symbols scope first ++ inTurn symbols scopeAfter (scopeAfter scope first) rest

namespace Item

def tokens (item : Item) : List Token := item.statement.tokens

def symbols (scope : Option String) (item : Item) : List Symbol := item.statement.symbols scope

def scopeAfter (scope : Option String) (item : Item) : Option String :=
  item.statement.scopeAfter scope

end Item

namespace Part

def tokens : Part → List Token
  | item only => only.tokens
  | block keyword _ name items =>
    .ident keyword :: (name.map Token.ident).toList ++ braced (items.flatMap Item.tokens)

def symbols (scope : Option String) : Part → List Symbol
  | item only => only.symbols scope
  | block _ _ name items =>
    inTurn Item.symbols Item.scopeAfter (name.map fun name => Name.bare (.ofList name)) items

/-- Behind the braces of a namespace there is none. -/
def scopeAfter (scope : Option String) : Part → Option String
  | item only => only.scopeAfter scope
  | block .. => none

end Part

abbrev Program := List Part

namespace Program

def tokens (program : Program) : List Token := program.flatMap Part.tokens

def symbols (program : Program) : List Symbol := inTurn Part.symbols Part.scopeAfter none program

end Program

end AutoloadIndex.FactScan
