import AutoloadIndex.Text.Basic
import AutoloadIndex.Symbol.Kind

set_option autoImplicit false

/-!
Name rules shared by everything that reports or looks up a symbol: how a short name is joined to
its namespace, under which key a name is stored, which spellings a lookup tries, and how an element
name becomes the name of a class.
-/

namespace AutoloadIndex.Name

def separator : Char := '\\'

def relative (name : String) : String := .ofList (Text.trimStart separator name.toList)

def bare (scope : String) : String := .ofList (Text.trim separator scope.toList)

def lowerAscii (name : String) : String := .ofList (Text.lowerAscii name.toList)

def join (scope name : String) : String := scope ++ "\\" ++ name

/-- Fully qualified name; an empty or missing namespace leaves the name as it is. -/
def qualify (scope : Option String) (name : String) : String :=
  match scope.map bare with
  | some scope => if scope.isEmpty then relative name else join scope (relative name)
  | none => relative name

def key (kind : Kind) (name : String) : String :=
  if kind.foldsCase then lowerAscii (relative name) else relative name

/-- The spelling a lookup starts from. Unlike `qualify`, a scope of separators only still counts. -/
def underScope (scope : Option String) (name : String) : String :=
  match scope with
  | some scope => if scope.isEmpty then relative name else join (bare scope) (relative name)
  | none => relative name

def addNew (xs : List String) (x : String) : List String := if x ∈ xs then xs else xs ++ [x]

/-- Keys to try for a name, in order: folded under the scope, as written under the scope, and
without it. -/
def candidates (kind : Kind) (scope : Option String) (name : String) : List String :=
  let qualified := underScope scope name
  ([lowerAscii qualified, qualified, name].map (key kind)).foldl addNew []

def mangleChar (c : Char) : List Char :=
  if c = ':' then ['_', '_'] else if c = '-' then ['_'] else [c]

/-- Class name of an element such as `:ui:fancy-button`. -/
def ofElement (element : List Char) : List Char :=
  ['x', 'h', 'p', '_'] ++ (Text.trimStart ':' element).flatMap mangleChar

end AutoloadIndex.Name
