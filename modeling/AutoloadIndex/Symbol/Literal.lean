import AutoloadIndex.Text.Blank

set_option autoImplicit false

/-!
Values of quoted string literals, as far as they can name a symbol: single-quoted strings, and
double-quoted ones without interpolation.
-/

namespace AutoloadIndex.Literal

def isQuote (c : Char) : Bool := c == '\'' || c == '"'

/-- Whether `c` directly after a dollar sign makes a double-quoted string interpolated. -/
def startsInterpolation (c : Char) : Bool := c.isAlpha || c == '_' || c == '{'

/-- Whether a backslash in front of `c` is an escape, so that the pair stands for `c` alone. -/
def isEscaped (quote c : Char) : Bool := c == '\\' || c == quote || (c == '$' && quote == '"')

def body (quote : Char) : List Char → Option (List Char)
  | [] => some []
  | [c] => some [c]
  | c :: d :: rest =>
    if c = '\\' then
      if isEscaped quote d then (body quote rest).map (d :: ·)
      else (body quote (d :: rest)).map (c :: ·)
    else if c = '$' ∧ quote = '"' ∧ startsInterpolation d then none
    else (body quote (d :: rest)).map (c :: ·)

def trimBlank (cs : List Char) : List Char :=
  ((cs.dropWhile Text.isBlank).reverse.dropWhile Text.isBlank).reverse

/-- Value of a literal written with its quotes, white space around it being ignored. -/
def value (literal : List Char) : Option (List Char) :=
  match trimBlank literal with
  | [] => none
  | quote :: rest =>
    if isQuote quote ∧ rest.getLast? = some quote then body quote rest.dropLast else none

end AutoloadIndex.Literal
