set_option autoImplicit false

/-!
Brace nesting, in which the bodies of namespaces are told apart from blocks of code.
-/

namespace AutoloadIndex

inductive Brace where
  | scope
  | block
deriving DecidableEq, Repr

/-- Open braces, the innermost first, and whether the next one opens the body of a namespace. -/
structure Nesting where
  braces : List Brace := []
  pending : Bool := false
deriving DecidableEq, Repr

namespace Nesting

def expectScope (nesting : Nesting) : Nesting := { nesting with pending := true }

def opened (nesting : Nesting) : Nesting :=
  { braces := (if nesting.pending then .scope else .block) :: nesting.braces, pending := false }

/-- The innermost brace and the nesting without it; none if no brace is open. -/
def close? (nesting : Nesting) : Option (Brace × Nesting) :=
  match nesting.braces with
  | [] => none
  | brace :: outer => some (brace, { nesting with braces := outer })

/-- A stray closing brace changes nothing. -/
def closed (nesting : Nesting) : Nesting := { nesting with braces := nesting.braces.tail }

/-- Outside every block; the bodies of namespaces do not count. -/
def isTopLevel (nesting : Nesting) : Bool := nesting.braces.all (· == .scope)

def isBalanced (nesting : Nesting) : Bool := nesting.braces.isEmpty

end Nesting

end AutoloadIndex
