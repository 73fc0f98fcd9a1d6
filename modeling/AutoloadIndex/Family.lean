import AutoloadIndex.FactScan
import AutoloadIndex.Program.Outline
import AutoloadIndex.Reference

set_option autoImplicit false

/-!
Parser families: the closed set of parsers to choose from, by name.
-/

namespace AutoloadIndex

inductive Family where
  | reference
  | factScan
deriving DecidableEq, Repr

namespace Family

def all : List Family := [reference, factScan]

def text : Family → String
  | reference => "definition-finder"
  | factScan => "fact-scan"

def description : Family → String
  | reference => "Full PHP syntax tree (reference)"
  | factScan => "Single-pass declaration scanner (fast)"

def aliases : Family → List String
  | reference => ["reference", "ast"]
  | factScan => ["fast", "facts"]

def parse? (name : String) : Option Family :=
  let name := Text.lowercase name
  all.find? fun family => family.text == name || family.aliases.contains name

def unknownMessage (name : String) : String :=
  "Unknown parser family '" ++ name ++ "'. Valid options: " ++ ", ".intercalate (all.map text)

/-- The parser of a family; the reference family has the outlines of a full parser. -/
def parserOver (outline : Program.Outliner) : Family → Parser
  | reference => Reference.parse outline
  | factScan => FactScan.parse

def parser : Family → Parser := parserOver Program.outline

end Family

/-- The families that can be used; the reference family always can. -/
structure Capabilities where
  factScan : Bool := true
deriving DecidableEq, Repr

namespace Capabilities

def referenceOnly : Capabilities := ⟨false⟩

def supports (capabilities : Capabilities) : Family → Bool
  | .reference => true
  | .factScan => capabilities.factScan

def families (capabilities : Capabilities) : List Family :=
  Family.all.filter capabilities.supports

end Capabilities

end AutoloadIndex
