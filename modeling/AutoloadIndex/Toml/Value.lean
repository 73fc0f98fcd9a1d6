set_option autoImplicit false

/-!
Values of a TOML document, and the tables that grow while one is read. Which tables may still be
extended depends on how they came to be.
-/

namespace AutoloadIndex.Toml

/-- A value, of which only texts, flags and their arrangement matter to settings. -/
inductive Value where
  | text (value : String)
  | flag (value : Bool)
  | number
  /-- Date, time, or both. -/
  | moment
  | list (items : List Value)
  | table (fields : List (String × Value))
deriving Repr

inductive Origin where
  /-- As part of the path of a header. -/
  | path
  /-- As part of a dotted key. -/
  | dotted
  /-- By a header of its own. -/
  | header
deriving DecidableEq, Repr

/-- What a key of a document under construction stands for. -/
inductive Node where
  | value (value : Value)
  | table (origin : Origin) (fields : List (String × Node))
  | rows (rows : List (List (String × Node)))

abbrev Fields := List (String × Node)

mutual

def Node.toValue : Node → Value
  | .value value => value
  | .table _ fields => .table (fieldValues fields)
  | .rows rows => .list (rowValues rows)

def fieldValues : List (String × Node) → List (String × Value)
  | [] => []
  | (key, node) :: rest => (key, node.toValue) :: fieldValues rest

def rowValues : List (List (String × Node)) → List Value
  | [] => []
  | row :: rest => .table (fieldValues row) :: rowValues rest

end

namespace Fields

def get? (fields : Fields) (key : String) : Option Node := fields.lookup key

def set (fields : Fields) (key : String) (node : Node) : Fields :=
  if (fields.lookup key).isSome then
    fields.map fun field => if field.1 == key then (key, node) else field
  else fields ++ [(key, node)]

/-- Changes the table at the end of the path of a header, making the tables on the way to it. Of an
array of tables the last one counts. -/
def modifyAt (change : Fields → Option Fields) : List String → Fields → Option Fields
  | [], fields => change fields
  | key :: path, fields =>
    match fields.get? key with
    | none => (modifyAt change path []).map fun inner => fields.set key (.table .path inner)
    | some (.table origin inner) =>
      (modifyAt change path inner).map fun inner => fields.set key (.table origin inner)
    | some (.rows rows) => do
      let last ← rows.getLast?
      let last ← modifyAt change path last
      return fields.set key (.rows (rows.dropLast ++ [last]))
    | some (.value _) => none

/-- Sets a dotted key that has no value yet. The flag tells whether the table at hand takes keys of
its own here: it does if the line belongs to it or if dotted keys made it. Tables on the way to such
a one may have come to be as part of a header or an array, but not by a header of their own. -/
def assign (value : Node) (takes : Bool) : List String → Fields → Option Fields
  | [], _ => none
  | [key], fields =>
    if !takes || (fields.get? key).isSome then none else some (fields.set key value)
  | key :: path, fields =>
    match fields.get? key with
    | none => (assign value true path []).map fun inner => fields.set key (.table .dotted inner)
    | some (.table origin inner) =>
      if origin = .header then none
      else (assign value (origin = .dotted) path inner).map fun inner =>
        fields.set key (.table origin inner)
    | some (.rows rows) => do
      let last ← rows.getLast?
      let last ← assign value false path last
      return fields.set key (.rows (rows.dropLast ++ [last]))
    | some (.value _) => none

def startTable (path : List String) (fields : Fields) : Option Fields := do
  let key ← path.getLast?
  modifyAt (fun fields =>
    match fields.get? key with
    | none => some (fields.set key (.table .header []))
    | some (.table .path inner) => some (fields.set key (.table .header inner))
    | some _ => none) path.dropLast fields

def startRow (path : List String) (fields : Fields) : Option Fields := do
  let key ← path.getLast?
  modifyAt (fun fields =>
    match fields.get? key with
    | none => some (fields.set key (.rows [[]]))
    | some (.rows rows) => some (fields.set key (.rows (rows ++ [[]])))
    | some _ => none) path.dropLast fields

end Fields

end AutoloadIndex.Toml
