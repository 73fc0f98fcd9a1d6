import Std.Data.TreeMap
import AutoloadIndex.Path
import AutoloadIndex.Symbol.Name

set_option autoImplicit false

/-!
The index: for each kind a table from canonical keys to the file that defines them. Keys of classes
are folded, so that class names are found in any case.
-/

namespace AutoloadIndex

/-- Files by key, in ascending order of keys. -/
abbrev Table := Std.TreeMap String Path

structure Index where
  classes : Table := ∅
  functions : Table := ∅
  types : Table := ∅
  constants : Table := ∅

namespace Index

def entries (index : Index) : Kind → Table
  | .classLike => index.classes
  | .function => index.functions
  | .typeAlias => index.types
  | .constant => index.constants

def withEntries (index : Index) (kind : Kind) (table : Table) : Index :=
  match kind with
  | .classLike => { index with classes := table }
  | .function => { index with functions := table }
  | .typeAlias => { index with types := table }
  | .constant => { index with constants := table }

def get? (index : Index) (kind : Kind) (name : String) : Option Path :=
  (index.entries kind)[Name.key kind name]?

/-- The file of the first candidate that is stored. -/
def resolve? (index : Index) (kind : Kind) (scope : Option String) (name : String) : Option Path :=
  (Name.candidates kind scope name).findSome? fun key => (index.entries kind)[key]?

def contains (index : Index) (kind : Kind) (name : String) : Bool := (index.get? kind name).isSome

def count (index : Index) (kind : Kind) : Nat := (index.entries kind).size

def size (index : Index) : Nat := Kind.all.foldl (fun total kind => total + index.count kind) 0

def isEmpty (index : Index) : Bool := index.size == 0

def summary (index : Index) : String :=
  let counts := Kind.all.map fun kind => kind.text ++ ": " ++ toString (index.count kind)
  toString index.size ++ " definitions (" ++ ", ".intercalate counts ++ ")"

def insert (index : Index) (kind : Kind) (name : String) (path : Path) : Index :=
  index.withEntries kind ((index.entries kind).insert (Name.key kind name) path)

/-- Whether two tables have the same keys and each key the same place. -/
def sameTable (first second : Table) : Bool :=
  first.toList.map (fun entry => (entry.1, entry.2.components)) ==
    second.toList.map (fun entry => (entry.1, entry.2.components))

/-- Whether two indexes agree in all kinds, paths being compared by their components. -/
def same (first second : Index) : Bool :=
  Kind.all.all fun kind => sameTable (first.entries kind) (second.entries kind)

@[simp] theorem entries_withEntries (index : Index) (kind other : Kind) (table : Table) :
    (index.withEntries kind table).entries other =
      if kind = other then table else index.entries other := by
  cases kind <;> cases other <;> rfl

theorem get?_insert (index : Index) (kind other : Kind) (name asked : String) (path : Path) :
    (index.insert kind name path).get? other asked =
      if kind = other ∧ Name.key kind name = Name.key other asked then some path
      else index.get? other asked := by
  by_cases kinds : kind = other
  · subst kinds
    simp [get?, insert, Std.TreeMap.getElem?_insert]
  · simp [get?, insert, kinds]

end Index

end AutoloadIndex
