import AutoloadIndex.Index
import AutoloadIndex.Symbol.Definition

set_option autoImplicit false

/-!
The registry fills an index file by file. What happens when two files define the same key is decided
by its collision policy, and every collision is reported.
-/

namespace AutoloadIndex

inductive CollisionPolicy where
  | lastWins
  | firstWins
  | error
deriving DecidableEq, Repr

namespace CollisionPolicy

def all : List CollisionPolicy := [lastWins, firstWins, error]

def text : CollisionPolicy → String
  | lastWins => "last-wins"
  | firstWins => "first-wins"
  | error => "error"

/-- Reads the name of a policy in any case; the first two have short names. -/
def parse? (name : String) : Option CollisionPolicy :=
  match Text.lowercase name with
  | "last-wins" | "last" => some lastWins
  | "first-wins" | "first" => some firstWins
  | "error" => some error
  | _ => none

end CollisionPolicy

/-- A key that two files define, and the file that stays in the index. -/
structure Collision where
  kind : Kind
  name : String
  previous : Path
  incoming : Path
  kept : Path
deriving DecidableEq, Repr

structure Duplicate where
  kind : Kind
  name : String
  existing : Path
  incoming : Path
deriving DecidableEq, Repr

def Duplicate.message (duplicate : Duplicate) : String :=
  duplicate.kind.text ++ " '" ++ duplicate.name ++ "' is defined in both " ++
    duplicate.existing.spelling ++ " and " ++ duplicate.incoming.spelling

structure Added where
  definitions : Nat
  collisions : List Collision
deriving DecidableEq, Repr

/-- An index, how collisions in it are settled, and the number of files added to it. -/
structure Registry where
  policy : CollisionPolicy := .lastWins
  index : Index := {}
  files : Nat := 0

namespace Registry

def conflict? (registry : Registry) (kind : Kind) (name : String) (path : Path) : Option Path :=
  (registry.index.get? kind name).filter fun existing => !decide (existing.Same path)

def store (registry : Registry) (kind : Kind) (name : String) (path : Path) : Registry :=
  { registry with index := registry.index.insert kind name path }

/-- Stores one name. Without a conflict the path replaces an equal one and its spelling. -/
def insert (registry : Registry) (kind : Kind) (name : String) (path : Path) :
    Except Duplicate (Registry × Option Collision) :=
  match registry.conflict? kind name path with
  | none => .ok (registry.store kind name path, none)
  | some previous =>
    match registry.policy with
    | .lastWins =>
      .ok (registry.store kind name path, some ⟨kind, name, previous, path, path⟩)
    | .firstWins => .ok (registry, some ⟨kind, name, previous, path, previous⟩)
    | .error => .error ⟨kind, name, previous, path⟩

/-- Stores names in order. The names in front of one that fails stay stored. -/
def insertAll (registry : Registry) (path : Path) :
    List Symbol → Registry × Except Duplicate (List Collision)
  | [] => (registry, .ok [])
  | symbol :: rest =>
    match registry.insert symbol.kind symbol.name path with
    | .error duplicate => (registry, .error duplicate)
    | .ok (registry, collision) =>
      let (registry, more) := registry.insertAll path rest
      (registry, more.map (collision.toList ++ ·))

/-- Adds the symbols of one file. A file counts only if all its symbols could be stored. -/
def add (registry : Registry) (path : Path) (symbols : List Symbol) :
    Registry × Except Duplicate Added :=
  match registry.insertAll path symbols with
  | (registry, .ok collisions) =>
    ({ registry with files := registry.files + 1 }, .ok ⟨symbols.length, collisions⟩)
  | (registry, .error duplicate) => (registry, .error duplicate)

end Registry

end AutoloadIndex
