import AutoloadIndex.Text.Lowercase

set_option autoImplicit false

/-!
Kinds of autoloadable symbols. Interfaces, traits and enums are autoloaded like classes and share
their kind.
-/

namespace AutoloadIndex

inductive Kind where
  | classLike
  | function
  | typeAlias
  | constant
deriving DecidableEq, Repr

namespace Kind

def all : List Kind := [classLike, function, typeAlias, constant]

def text : Kind → String
  | classLike => "class"
  | function => "function"
  | typeAlias => "type"
  | constant => "constant"

/-- Only names of classes are looked up without regard to case. -/
def foldsCase (kind : Kind) : Bool := kind == classLike

/-- Reads the name of a kind in any case. A failure carries the name in lower case. -/
def parse (name : String) : Except String Kind :=
  let name := Text.lowercase name
  match all.find? (·.text == name) with
  | some kind => .ok kind
  | none => .error name

theorem mem_all (kind : Kind) : kind ∈ all := by cases kind <;> decide

def unknownMessage (name : String) : String := "unknown symbol kind '" ++ name ++ "'"

end Kind

end AutoloadIndex
