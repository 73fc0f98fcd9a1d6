set_option autoImplicit false

/-!
JSON values and their text over several lines, in which every level is indented by two spaces and
empty lists and objects stay on one line.
-/

namespace AutoloadIndex.Command

/-- A value; the fields of an object keep their order. -/
inductive Json where
  | text (value : String)
  | number (value : Nat)
  | flag (value : Bool)
  | list (items : List Json)
  | object (fields : List (String × Json))

namespace Json

def hexDigit (n : Nat) : Char := (Nat.digitChar n)

def escapeChar (c : Char) : List Char :=
  match c with
  | '"' => ['\\', '"']
  | '\\' => ['\\', '\\']
  | '\x08' => ['\\', 'b']
  | '\x0c' => ['\\', 'f']
  | '\n' => ['\\', 'n']
  | '\r' => ['\\', 'r']
  | '\t' => ['\\', 't']
  | c =>
    if c.toNat < 0x20 then
      ['\\', 'u', '0', '0', hexDigit (c.toNat / 16), hexDigit (c.toNat % 16)]
    else [c]

def quote (text : String) : String := "\"" ++ .ofList (text.toList.flatMap escapeChar) ++ "\""

def indent (depth : Nat) : String := .ofList (List.replicate (2 * depth) ' ')

def bracket (opening closing : String) (depth : Nat) (lines : List String) : String :=
  if lines.isEmpty then opening ++ closing
  else
    let inner := lines.map (indent (depth + 1) ++ ·)
    opening ++ "\n" ++ ",\n".intercalate inner ++ "\n" ++ indent depth ++ closing

mutual

def render (depth : Nat) : Json → String
  | .text value => quote value
  | .number value => toString value
  | .flag value => if value then "true" else "false"
  | .list items => bracket "[" "]" depth (renderItems (depth + 1) items)
  | .object fields => bracket "\x7b" "\x7d" depth (renderFields (depth + 1) fields)

def renderItems (depth : Nat) : List Json → List String
  | [] => []
  | item :: rest => render depth item :: renderItems depth rest

def renderFields (depth : Nat) : List (String × Json) → List String
  | [] => []
  | (key, value) :: rest => (quote key ++ ": " ++ render depth value) :: renderFields depth rest

end

def pretty (value : Json) : String := render 0 value

end Json

end AutoloadIndex.Command
