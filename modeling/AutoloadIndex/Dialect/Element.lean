import AutoloadIndex.Symbol.Name
import AutoloadIndex.Text.Blank
import AutoloadIndex.Text.Word

set_option autoImplicit false

/-!
Element classes: where a class header names an element, as in `class :ui:button extends :x:base`,
the element name becomes the name of its class.
-/

namespace AutoloadIndex.Dialect

/-- Case folding as far as it reaches the letters of the two keywords. -/
def foldLetter (c : Char) : Char := if c = 'ſ' then 's' else c.toLower

def keywordLength (word : String) (cs : List Char) : Option Nat :=
  if (cs.take word.length).map foldLetter = word.toList then some word.length else none

def isElementStart (c : Char) : Bool := c.isAlpha || c == '_'

def isElementChar (c : Char) : Bool := Text.isWord c || c == '-'

def elementPart (cs : List Char) : Option Nat :=
  match cs with
  | [] => none
  | c :: rest => if isElementStart c then some ((rest.takeWhile isElementChar).length + 1) else none

/-- Characters of further parts of an element name, each with the colon in front of it. The first
argument bounds the number of parts. -/
def elementParts : Nat → List Char → Nat
  | 0, _ => 0
  | bound + 1, cs =>
    match cs with
    | ':' :: rest =>
      match elementPart rest with
      | some part => 1 + part + elementParts bound (rest.drop part)
      | none => 0
    | _ => 0

def elementLength (cs : List Char) : Option Nat := do
  let first ← elementPart cs
  return first + elementParts cs.length (cs.drop first)

/-- A keyword, white space and an element name at the start of the text: the text that replaces
them, and the number of characters replaced. -/
def elementHeader (cs : List Char) : Option (List Char × Nat) := do
  let keyword ← keywordLength "class" cs <|> keywordLength "extends" cs
  let blank := ((cs.drop keyword).takeWhile Text.isBlank).length
  guard (0 < blank)
  let head := keyword + blank
  match cs.drop head with
  | ':' :: rest =>
    let name ← elementLength rest
    return (cs.take head ++ Name.ofElement (rest.take name), head + 1 + name)
  | _ => none

def gluesKeyword (c : Char) : Bool := c == ':' || Text.isWord c || c == '$' || c == '>'

/-- What replaces the text at this place, and the number of characters replaced. A header counts at
the start of a line or after a character that does not belong to the word. -/
def elementAt (lineStart : Bool) (cs : List Char) : Option (List Char × Nat) :=
  (if lineStart then elementHeader cs else none) <|>
    match cs with
    | [] => none
    | c :: rest =>
      if gluesKeyword c then none
      else (elementHeader rest).map fun (text, count) => (c :: text, count + 1)

/-- The text with all element headers lowered, where `skip` characters are replaced already. -/
def lowerElementsFrom (skip : Nat) (lineStart : Bool) : List Char → List Char
  | [] => []
  | c :: rest =>
    match skip with
    | skip + 1 => lowerElementsFrom skip (c == '\n') rest
    | 0 =>
      match elementAt lineStart (c :: rest) with
      | some (text, count) => text ++ lowerElementsFrom (count - 1) (c == '\n') rest
      | none => c :: lowerElementsFrom 0 (c == '\n') rest

def lowerElements (source : List Char) : List Char := lowerElementsFrom 0 true source

end AutoloadIndex.Dialect
