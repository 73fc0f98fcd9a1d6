import AutoloadIndex.Toml.Value

set_option autoImplicit false

/-!
Reading of TOML documents. Every reader takes the text from its place on and gives what it has read
and the rest of the text; none stands for a text that is no TOML. Readers that repeat themselves are
bounded by the length of the text.
-/

namespace AutoloadIndex.Toml

abbrev Reader (α : Type) := List Char → Option (α × List Char)

def isBlank (c : Char) : Bool := c == ' ' || c == '\t'

def skipBlank (cs : List Char) : List Char := cs.dropWhile isBlank

def isPrintable (c : Char) : Bool := c == '\t' || (0x20 ≤ c.toNat && c.toNat != 0x7F)

def afterNewline? : List Char → Option (List Char)
  | '\n' :: rest => some rest
  | '\r' :: '\n' :: rest => some rest
  | _ => none

def hexValue? (c : Char) : Option Nat :=
  if c.isDigit then some (c.toNat - '0'.toNat)
  else if 'a' ≤ c ∧ c ≤ 'f' then some (c.toNat - 'a'.toNat + 10)
  else if 'A' ≤ c ∧ c ≤ 'F' then some (c.toNat - 'A'.toNat + 10)
  else none

def unicodeEscape (digits : Nat) (cs : List Char) : Option (Char × List Char) := do
  let taken := cs.take digits
  guard (taken.length = digits)
  let number ← taken.foldlM (fun n c => (hexValue? c).map (n * 16 + ·)) 0
  guard (number.isValidChar)
  return (Char.ofNat number, cs.drop digits)

def escape : Reader Char
  | 'b' :: rest => some ('\x08', rest)
  | 't' :: rest => some ('\t', rest)
  | 'n' :: rest => some ('\n', rest)
  | 'f' :: rest => some ('\x0c', rest)
  | 'r' :: rest => some ('\r', rest)
  | '"' :: rest => some ('"', rest)
  | '\\' :: rest => some ('\\', rest)
  | 'u' :: rest => unicodeEscape 4 rest
  | 'U' :: rest => unicodeEscape 8 rest
  | _ => none

def basicText : Nat → Reader (List Char)
  | 0, _ => none
  | bound + 1, cs =>
    match cs with
    | '"' :: rest => some ([], rest)
    | '\\' :: rest => do
      let (c, rest) ← escape rest
      let (text, rest) ← basicText bound rest
      return (c :: text, rest)
    | c :: rest => do
      guard (isPrintable c)
      let (text, rest) ← basicText bound rest
      return (c :: text, rest)
    | [] => none

def literalText : Reader (List Char)
  | [] => none
  | c :: rest =>
    if c = '\'' then some ([], rest)
    else if isPrintable c then (literalText rest).map fun (text, rest) => (c :: text, rest)
    else none

/-- Three quotes that close a text; up to two more in front of them belong to the text. -/
def closingQuotes? (quote : Char) (cs : List Char) : Option (List Char × List Char) :=
  let count := min (cs.takeWhile (· == quote)).length 5
  if 3 ≤ count then some (List.replicate (count - 3) quote, cs.drop count) else none

def skipBreaks : Nat → List Char → List Char
  | 0, cs => cs
  | bound + 1, cs =>
    match afterNewline? (skipBlank cs) with
    | some rest => skipBreaks bound rest
    | none => skipBlank cs

/-- Text of several lines up to three quotes. Single quotes keep every character as it is; between
double quotes there are escapes, and a backslash at the end of a line hides the white space after
it. -/
def longText (quote : Char) : Nat → Reader (List Char)
  | 0, _ => none
  | bound + 1, cs =>
    match closingQuotes? quote cs with
    | some closed => some closed
    | none =>
      match afterNewline? cs with
      | some rest => (longText quote bound rest).map fun (text, rest) => ('\n' :: text, rest)
      | none =>
        match cs with
        | [] => none
        | c :: rest =>
          if c = '\\' ∧ quote = '"' then
            if (afterNewline? (skipBlank rest)).isSome then
              longText quote bound (skipBreaks rest.length rest)
            else do
              let (c, rest) ← escape rest
              let (text, rest) ← longText quote bound rest
              return (c :: text, rest)
          else if isPrintable c then
            (longText quote bound rest).map fun (text, rest) => (c :: text, rest)
          else none

def quoted (cs : List Char) : Option (String × List Char) := do
  let long (quote : Char) (rest : List Char) : Option (List Char × List Char) :=
    longText quote (rest.length + 1) ((afterNewline? rest).getD rest)
  let (text, rest) ← match cs with
    | '"' :: '"' :: '"' :: rest => long '"' rest
    | '\'' :: '\'' :: '\'' :: rest => long '\'' rest
    | '"' :: rest => basicText (rest.length + 1) rest
    | '\'' :: rest => literalText rest
    | _ => none
  return (.ofList text, rest)

def isBareChar (c : Char) : Bool := c.isAlphanum || c == '_' || c == '-'

def simpleKey (cs : List Char) : Option (String × List Char) :=
  match cs with
  | '"' :: rest => (basicText (rest.length + 1) rest).map fun (text, rest) => (.ofList text, rest)
  | '\'' :: rest => (literalText rest).map fun (text, rest) => (.ofList text, rest)
  | _ =>
    let bare := cs.takeWhile isBareChar
    if bare.isEmpty then none else some (.ofList bare, cs.drop bare.length)

/-- Lists and tables nest less deeply than this, and keys have fewer parts. -/
def depthLimit : Nat := 80

def keyParts : Nat → Reader (List String)
  | 0, _ => none
  | bound + 1, cs => do
    let (key, rest) ← simpleKey (skipBlank cs)
    match skipBlank rest with
    | '.' :: rest =>
      let (keys, rest) ← keyParts bound rest
      return (key :: keys, rest)
    | rest => return ([key], rest)

def dottedKey : Reader (List String) := keyParts (depthLimit - 1)

/-- Whether the text consists of digits of a base with single underscores between them. -/
def isDigits (isDigit : Char → Bool) : List Char → Bool
  | [] => false
  | [c] => isDigit c
  | c :: d :: rest =>
    isDigit c && if d = '_' then isDigits isDigit rest else isDigits isDigit (d :: rest)

def withoutSign : List Char → List Char
  | '+' :: rest => rest
  | '-' :: rest => rest
  | cs => cs

def isPlainInteger (cs : List Char) : Bool :=
  isDigits Char.isDigit cs && (cs.length == 1 || cs.head? != some '0')

def digitsValue (base : Nat) (cs : List Char) : Nat :=
  cs.foldl (fun n c => match hexValue? c with | some d => n * base + d | none => n) 0

/-- The least natural number that does not fit into 64 bits with a sign. -/
def integerLimit : Nat := 0x8000000000000000

def isInteger (cs : List Char) : Bool :=
  let based (base : Nat) (isDigit : Char → Bool) (digits : List Char) : Bool :=
    isDigits isDigit digits && digitsValue base digits < integerLimit
  match cs with
  | '0' :: 'x' :: digits => based 16 (fun c => (hexValue? c).isSome) digits
  | '0' :: 'o' :: digits => based 8 (fun c => '0' ≤ c && c ≤ '7') digits
  | '0' :: 'b' :: digits => based 2 (fun c => c == '0' || c == '1') digits
  | _ =>
    let limit := if cs.head? = some '-' then integerLimit else integerLimit - 1
    isPlainInteger (withoutSign cs) && digitsValue 10 (withoutSign cs) ≤ limit

/-- A decimal number without a sign: the digits in front of the point and behind it, and the
exponent with its sign. -/
structure Decimal where
  whole : List Char
  fraction : Option (List Char)
  exponent : Option (List Char)
deriving DecidableEq, Repr

namespace Decimal

/-- Takes a text apart at the point and at the letter in front of the exponent. -/
def ofText (cs : List Char) : Decimal :=
  let isMark (c : Char) : Bool := c == 'e' || c == 'E'
  let mantissa := cs.takeWhile (!isMark ·)
  let whole := mantissa.takeWhile (· != '.')
  { whole
    fraction := (mantissa.drop whole.length).tail?
    exponent := (cs.drop mantissa.length).tail? }

def isFloat (number : Decimal) : Bool :=
  isPlainInteger number.whole && number.fraction.all (isDigits Char.isDigit) &&
    number.exponent.all (isDigits Char.isDigit <| withoutSign ·) &&
    (number.fraction.isSome || number.exponent.isSome)

/-- The least number that is closer to the infinite than to any float of 64 bits. -/
def overflow : Nat := Nat.shiftLeft 0x3FFFFFFFFFFFFF 970

def overflowDigits : Nat := 309

/-- Whether the number is at least `overflow`. If the place of its first digit does not tell, both
are multiplied until they are whole. -/
def overflows (number : Decimal) : Bool :=
  let fraction := (number.fraction.getD []).filter Char.isDigit
  let digits := (number.whole.filter Char.isDigit ++ fraction).dropWhile (· == '0')
  let written := number.exponent.getD []
  let size : Int := digitsValue 10 (withoutSign written)
  let scale : Int := (if written.head? = some '-' then -size else size) - fraction.length
  let place : Int := digits.length + scale
  if digits.isEmpty || place < overflowDigits then false
  else if overflowDigits < place then true
  else overflow * Nat.pow 10 (-scale).toNat ≤ digitsValue 10 digits * Nat.pow 10 scale.toNat

end Decimal

/-- Floats must not be too large; those below zero may be. -/
def isFloat (cs : List Char) : Bool :=
  let body := withoutSign cs
  let number := Decimal.ofText body
  body = ['i', 'n', 'f'] || body = ['n', 'a', 'n'] ||
    (number.isFloat && (cs.head? = some '-' || !number.overflows))

def fixedDigits (count : Nat) (cs : List Char) : Option (Nat × List Char) :=
  let digits := cs.take count
  if digits.length = count ∧ digits.all Char.isDigit then
    some (digitsValue 10 digits, cs.drop count)
  else none

def expect (c : Char) (cs : List Char) : Option (List Char) :=
  match cs with
  | d :: rest => if c = d then some rest else none
  | [] => none

def daysInMonth (year month : Nat) : Nat :=
  if month = 2 then
    if year % 4 = 0 ∧ (year % 100 ≠ 0 ∨ year % 400 = 0) then 29 else 28
  else if [4, 6, 9, 11].contains month then 30 else 31

def afterDate? (cs : List Char) : Option (List Char) := do
  let (year, rest) ← fixedDigits 4 cs
  let (month, rest) ← fixedDigits 2 (← expect '-' rest)
  let (day, rest) ← fixedDigits 2 (← expect '-' rest)
  guard (1 ≤ month ∧ month ≤ 12 ∧ 1 ≤ day ∧ day ≤ daysInMonth year month)
  return rest

def afterTime? (cs : List Char) : Option (List Char) := do
  let (hour, rest) ← fixedDigits 2 cs
  let (minute, rest) ← fixedDigits 2 (← expect ':' rest)
  let (second, rest) ← fixedDigits 2 (← expect ':' rest)
  guard (hour ≤ 23 ∧ minute ≤ 59 ∧ second ≤ 60)
  match rest with
  | '.' :: fraction =>
    let digits := (fraction.takeWhile Char.isDigit).length
    guard (0 < digits)
    return fraction.drop digits
  | _ => return rest

def isOffset (cs : List Char) : Bool :=
  match cs with
  | [] => true
  | [c] => c == 'Z' || c == 'z'
  | sign :: rest =>
    (sign == '+' || sign == '-') && ((do
      let (hour, rest) ← fixedDigits 2 rest
      let (minute, rest) ← fixedDigits 2 (← expect ':' rest)
      guard (hour ≤ 23 ∧ minute ≤ 59 ∧ rest.isEmpty)) : Option Unit).isSome

def isMoment (cs : List Char) : Bool :=
  match afterDate? cs with
  | some [] => true
  | some (mark :: rest) =>
    (mark == 'T' || mark == 't' || mark == ' ') && (afterTime? rest).any isOffset
  | none => (afterTime? cs).any List.isEmpty

def isScalarChar (c : Char) : Bool :=
  c.isAlphanum || c == '_' || c == '+' || c == '-' || c == '.' || c == ':'

/-- A flag, a number or a moment; a space may divide a date from a time. -/
def scalar (cs : List Char) : Option (Value × List Char) :=
  let word := cs.takeWhile isScalarChar
  let rest := cs.drop word.length
  if word = "true".toList then some (.flag true, rest)
  else if word = "false".toList then some (.flag false, rest)
  else
    let moment := match rest with
      | ' ' :: d :: _ => if d.isDigit && afterDate? word == some [] then
          word ++ ' ' :: (rest.tail.takeWhile isScalarChar) else word
      | _ => word
    if isMoment moment then some (.moment, cs.drop moment.length)
    else if isInteger word || isFloat word then some (.number, rest)
    else none

def skipComment (cs : List Char) : Option (List Char) :=
  match cs with
  | '#' :: rest =>
    let text := rest.takeWhile fun c => c != '\n' && c != '\r'
    if text.all isPrintable then some (rest.drop text.length) else none
  | _ => some cs

def skipLines : Nat → List Char → Option (List Char)
  | 0, cs => some cs
  | bound + 1, cs => do
    let rest ← skipComment (skipBlank cs)
    match afterNewline? rest with
    | some rest => skipLines bound rest
    | none => return rest

mutual

/-- A value; the first argument bounds the number of items, the second the nesting. -/
def value : Nat → Nat → Reader Value
  | 0, _, _ => none
  | bound + 1, depth, cs =>
    match cs, depth with
    | '"' :: _, _ | '\'' :: _, _ => (quoted cs).map fun (text, rest) => (.text text, rest)
    | '[' :: _, 0 | '{' :: _, 0 => none
    | '[' :: rest, depth + 1 =>
      (items bound depth rest).map fun (items, rest) => (.list items, rest)
    | '{' :: rest, depth + 1 =>
      match skipBlank rest with
      | '}' :: rest => some (.table [], rest)
      | rest =>
        (fields bound depth [] rest).map fun (fields, rest) => (.table (fieldValues fields), rest)
    | _, _ => scalar cs

def items : Nat → Nat → Reader (List Value)
  | 0, _, _ => none
  | bound + 1, depth, cs => do
    let rest ← skipLines cs.length cs
    match rest with
    | ']' :: rest => return ([], rest)
    | _ =>
      let (first, rest) ← value bound depth rest
      match ← skipLines rest.length rest with
      | ',' :: rest =>
        let (more, rest) ← items bound depth rest
        return (first :: more, rest)
      | ']' :: rest => return ([first], rest)
      | _ => none

def fields : Nat → Nat → Fields → Reader Fields
  | 0, _, _, _ => none
  | bound + 1, depth, known, cs => do
    let (key, rest) ← dottedKey cs
    let (found, rest) ← value bound depth (skipBlank (← expect '=' rest))
    let known ← Fields.assign (.value found) true key known
    match skipBlank rest with
    | ',' :: rest => fields bound depth known rest
    | '}' :: rest => return (known, rest)
    | _ => none

end

def endLine (cs : List Char) : Option (List Char) := do
  let rest ← skipComment (skipBlank cs)
  if rest.isEmpty then return [] else afterNewline? rest

/-- Lines of a document from a table on, whose path is the last header. -/
def lines : Nat → List String → Fields → List Char → Option Fields
  | 0, _, found, cs => if cs.isEmpty then some found else none
  | bound + 1, path, found, cs =>
    match skipBlank cs with
    | [] => some found
    | '[' :: '[' :: rest => do
      let (path, rest) ← dottedKey rest
      let found ← Fields.startRow path found
      lines bound path found (← endLine (← expect ']' (← expect ']' rest)))
    | '[' :: rest => do
      let (path, rest) ← dottedKey rest
      let found ← Fields.startTable path found
      lines bound path found (← endLine (← expect ']' rest))
    | c :: rest => do
      if c = '#' ∨ (afterNewline? (c :: rest)).isSome then
        lines bound path found (← endLine (c :: rest))
      else
        let (key, rest) ← dottedKey (c :: rest)
        let (assigned, rest) ← value rest.length (depthLimit - 1) (skipBlank (← expect '=' rest))
        let found ← Fields.modifyAt (Fields.assign (.value assigned) true key) path found
        lines bound path found (← endLine rest)

def parse (text : List Char) : Option Value := do
  let text := if text.head? = some '\uFEFF' then text.tail else text
  let found ← lines (text.length + 1) [] [] text
  return .table (fieldValues found)

end AutoloadIndex.Toml
