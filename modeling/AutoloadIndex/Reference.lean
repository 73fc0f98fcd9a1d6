import AutoloadIndex.Dialect.Lowering
import AutoloadIndex.Program.Statement
import AutoloadIndex.Symbol.Definition
import AutoloadIndex.Symbol.Literal
import AutoloadIndex.Text.Utf8

set_option autoImplicit false

/-!
The reference parser lowers a file, has a full parser read it and takes the definitions from the
outline of the program. Type aliases, which lowering takes out, follow; each belongs to the
namespace in effect at its offset. The full parser is any function from sources to outlines.
-/

namespace AutoloadIndex.Reference

open Program (Outliner Statement)

/-- Declared name of a namespace without the separators around it; none if nothing is left. -/
def scopeName (name : Option String) : Option String :=
  (name.map Name.bare).filter (!·.isEmpty)

def isDefine (function : String) : Bool :=
  Text.sameIgnoringCase (Text.trimStart '\\' function.toList) "define".toList

def definedName (function : String) (literal : Option String) : Option (List Char) :=
  if isDefine function then literal.bind fun text => Literal.value text.toList else none

mutual

/-- Symbols of a statement under the namespace in effect, and the namespace after it. -/
def symbolsOf (scope : Option String) : Statement → List Symbol × Option String
  | .scope _ name braced body =>
    let (found, last) := symbolsOfAll (scopeName name) body
    (found, if braced then none else last)
  | .declaration _ kind names => (names.map fun name => ⟨kind, Name.qualify scope name⟩, scope)
  | .call _ function literal =>
    ((definedName function literal).toList.map fun name =>
      ⟨.constant, Name.relative (.ofList name)⟩, scope)
  | .other _ => ([], scope)

def symbolsOfAll (scope : Option String) : List Statement → List Symbol × Option String
  | [] => ([], scope)
  | statement :: rest =>
    let (first, scope) := symbolsOf scope statement
    let (more, scope) := symbolsOfAll scope rest
    (first ++ more, scope)

end

structure Scope where
  span : Program.Span
  name : Option String
  braced : Bool
deriving DecidableEq, Repr

mutual

/-- Scopes of the namespaces of a statement, outer ones first. -/
def scopesOf : Statement → List Scope
  | .scope span name braced body => ⟨span, scopeName name, braced⟩ :: scopesOfAll body
  | .declaration .. | .call .. | .other _ => []

def scopesOfAll : List Statement → List Scope
  | [] => []
  | statement :: rest => scopesOf statement ++ scopesOfAll rest

end

/-- The namespace in effect at an offset outside of all other statements: the last one declared
before it, unless that has braces which are closed already. -/
def scopeAt (scopes : List Scope) (offset : Nat) : Option String := do
  let scope ← scopes.reverse.find? (·.span.start ≤ offset)
  if scope.braced ∧ scope.span.stop ≤ offset then none else scope.name

/-- Symbols of a program, and then those of the aliases taken out of it. -/
def collect (program : List Statement) (aliases : List Dialect.TypeAlias) : List Symbol :=
  let scopes := scopesOfAll program
  (symbolsOfAll none program).1 ++ aliases.map fun found =>
    ⟨.typeAlias, Name.qualify (scopeAt scopes found.offset) (.ofList found.name)⟩

def symbols (outline : Outliner) (path : Path) (source : List Char) :
    Except ParseCause (List Symbol) :=
  let lowered := Dialect.lower path source
  match outline lowered.source with
  | some program => .ok (collect program lowered.aliases)
  | none => .error .malformed

def parse (outline : Outliner) : Parser := fun content path =>
  match symbols outline path (Text.decode content) with
  | .ok found => .ok (found.map (·.definedIn path))
  | .error cause => .error ⟨path, cause⟩

end AutoloadIndex.Reference
