import AutoloadIndex.Program.Grammar
import AutoloadIndex.Program.Lexer
import AutoloadIndex.Program.Statement

set_option autoImplicit false

/-!
A parser to run the reference family with: the outline of a source by the predictive grammar.
Nothing said of the reference family depends on it.
-/

namespace AutoloadIndex.Program

def plainName? : List Lexeme → Option String
  | ⟨.name .plain text, _, _⟩ :: _ => some text
  | _ => none

def dropWords (words : List String) (lexemes : List Lexeme) : List Lexeme :=
  lexemes.dropWhile fun lexeme => words.contains lexeme.token.word

def constantNames (steps : Nat) : Nat → List Lexeme → List String
  | 0, _ => []
  | bound + 1, lexemes =>
    match plainName? lexemes, consume steps .expr (lexemes.drop 2) with
    | some name, some (_, ⟨.mark ",", _, _⟩ :: rest) => name :: constantNames steps bound rest
    | some name, _ => [name]
    | none, _ => []

def afterAttributes (steps : Nat) (lexemes : List Lexeme) : List Lexeme :=
  match consume steps .attributeGroups lexemes with
  | some (_, rest) => rest
  | none => lexemes

/-- Kind and names declared by the statement in front of the tokens, which is known to be well
formed. -/
def declared? (steps : Nat) (lexemes : List Lexeme) : Option (Kind × List String) :=
  match dropWords modifiers (afterAttributes steps lexemes) with
  | [] => none
  | head :: rest =>
    let named (kind : Kind) (rest : List Lexeme) : Option (Kind × List String) :=
      (plainName? rest).map fun name => (kind, [name])
    match head.token.word with
    | "class" | "interface" | "trait" | "enum" => named .classLike rest
    | "function" =>
      let rest := if rest.head?.any (·.token.symbol == "&") then rest.tail else rest
      if rest.head?.any (·.token.isPlain) then named .function rest else none
    | "const" => some (.constant, constantNames steps steps rest)
    | _ => none

def literalArgument? (call : List Lexeme) : Option String :=
  match call.drop (if (call[1]?).any (·.token.symbol == "...") then 2 else 1) with
  | ⟨.literal literal, _, _⟩ :: next :: _ =>
    if next.token.symbol == "," || next.token.symbol == ")" then some literal else none
  | _ => none

/-- Whether a statement that starts with these tokens is an expression with a name in front. -/
def startsWithName (first second third : Token) : Bool :=
  match first with
  | .name .plain _ =>
    Rule.wordStatement first.word second third == [.rule .expr, .rule .terminator] &&
      Rule.wordPrimary first.word second == some [.any]
  | _ => first.isName

/-- Function and literal of a statement that consists of a call which leaves no argument open. -/
def called? (steps : Nat) (lexemes : List Lexeme) : Option (String × Option String) :=
  match lexemes with
  | ⟨.name form text, _, _⟩ :: call =>
    let token (n : Nat) : Token := (call[n]?.map Lexeme.token).getD .html
    match consume steps .arguments call with
    | some (_, last :: _) =>
      if startsWithName (.name form text) (token 0) (token 1) && last.token.endsStatement then
        some (text, literalArgument? call)
      else none
    | _ => none
  | _ => none

inductive Ending where
  /-- The end of the file. -/
  | file
  /-- The next namespace or the end of the file. -/
  | implicit
  /-- A closing brace. -/
  | brace
deriving DecidableEq, Repr

def Ending.reached (ending : Ending) (lexemes : List Lexeme) : Bool :=
  match ending, lexemes with
  | brace, lexeme :: _ => lexeme.token.symbol == "\x7d"
  | brace, [] => false
  | implicit, lexeme :: _ => lexeme.token.word == "namespace"
  | _, [] => true
  | file, _ :: _ => false

def simpleStatement (steps : Nat) (first : Lexeme) (lexemes : List Lexeme) :
    Option (Statement × List Lexeme) := do
  let (stop, rest) ← consume steps .statement lexemes
  let span : Span := ⟨first.start, stop⟩
  let statement : Statement := match declared? steps lexemes, called? steps lexemes with
    | some (kind, names), _ => .declaration span kind names
    | none, some (function, literal) => .call span function literal
    | none, none => .other span
  return (statement, rest)

def scopeName (lexemes : List Lexeme) : Option String × List Lexeme :=
  match lexemes with
  | ⟨.name _ text, _, _⟩ :: rest => (some text, rest)
  | _ => (none, lexemes)

/-- Statements up to an ending, and the tokens from the ending on. The numbers bound the steps
within a statement and the count of statements and namespaces. -/
def statements (steps : Nat) : Nat → Ending → List Lexeme → Option (List Statement × List Lexeme)
  | 0, _, _ => none
  | bound + 1, ending, lexemes =>
    if ending.reached lexemes then some ([], lexemes)
    else match lexemes with
      | [] => none
      | first :: rest =>
        if first.token.word == "namespace" then do
          let (name, rest) := scopeName rest
          match rest with
          | [] => none
          | mark :: rest =>
            if mark.token.symbol == "\x7b" then
              let (body, rest) ← statements steps bound .brace rest
              match rest with
              | [] => none
              | close :: rest =>
                let (more, rest) ← statements steps bound ending rest
                return (.scope ⟨first.start, close.stop⟩ name true body :: more, rest)
            else if mark.token.endsStatement then
              let (body, rest) ← statements steps bound .implicit rest
              let stop := (rest.head?.map Lexeme.start).getD
                ((lexemes.getLast?.map Lexeme.stop).getD mark.stop)
              let (more, rest) ← statements steps bound ending rest
              return (.scope ⟨first.start, stop⟩ name false body :: more, rest)
            else none
        else do
          let (statement, rest) ← simpleStatement steps first lexemes
          let (more, rest) ← statements steps bound ending rest
          return (statement :: more, rest)

/-- The outline of a source, if it is a well-formed program. -/
def outline : Outliner := fun source => do
  let lexemes ← lex source
  let (found, _) ← statements (stepBound lexemes) (lexemes.length + 1) .file lexemes
  return found

end AutoloadIndex.Program
