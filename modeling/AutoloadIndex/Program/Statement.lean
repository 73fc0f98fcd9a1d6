import AutoloadIndex.Symbol.Kind

set_option autoImplicit false

/-!
The outline of a program: its statements at file level and in the bodies of namespaces, each with
its byte range. Of declarations it keeps the names as written, of calls the function and a literal
in front of the other arguments, and of all other statements nothing.
-/

namespace AutoloadIndex.Program

structure Span where
  start : Nat
  stop : Nat
deriving DecidableEq, Repr

inductive Statement where
  /-- A namespace and its statements; one without braces lasts to the next namespace. -/
  | scope (span : Span) (name : Option String) (braced : Bool) (body : List Statement)
  | declaration (span : Span) (kind : Kind) (names : List String)
  /-- A call of a function by its name that is a whole statement, with its first argument if that
  is a lone string literal. -/
  | call (span : Span) (function : String) (literal : Option String)
  | other (span : Span)
deriving Repr

namespace Statement

mutual

def decEq : (first second : Statement) → Decidable (first = second)
  | .scope span name braced body, .scope range label closed inner =>
    have := decEqAll body inner
    @decidable_of_decidable_of_iff (span = range ∧ name = label ∧ braced = closed ∧ body = inner) _ _
      (by simp)
  | .declaration span kind names, .declaration range sort labels =>
    @decidable_of_decidable_of_iff (span = range ∧ kind = sort ∧ names = labels) _ _ (by simp)
  | .call span function literal, .call range callee text =>
    @decidable_of_decidable_of_iff (span = range ∧ function = callee ∧ literal = text) _ _ (by simp)
  | .other span, .other range => @decidable_of_decidable_of_iff (span = range) _ _ (by simp)
  | .scope .., .declaration .. | .scope .., .call .. | .scope .., .other _
  | .declaration .., .scope .. | .declaration .., .call .. | .declaration .., .other _
  | .call .., .scope .. | .call .., .declaration .. | .call .., .other _
  | .other _, .scope .. | .other _, .declaration .. | .other _, .call .. => isFalse (by simp)

def decEqAll : (first second : List Statement) → Decidable (first = second)
  | [], [] => isTrue rfl
  | first :: rest, second :: more =>
    have := decEq first second
    have := decEqAll rest more
    @decidable_of_decidable_of_iff (first = second ∧ rest = more) _ _ (by simp)
  | [], _ :: _ | _ :: _, [] => isFalse (by simp)

end

instance : DecidableEq Statement := decEq

end Statement

/-- What a full parser says of a source: its outline, or nothing if it is malformed. -/
abbrev Outliner := List Char → Option (List Statement)

end AutoloadIndex.Program
