import AutoloadIndex.Family
import AutoloadIndex.Index

set_option autoImplicit false

/-!
Comparison of two indexes, kind by kind: which keys only one of them has, and which keys they store
for different files. Entries whose path contains a given text are left out on both sides.
-/

namespace AutoloadIndex

structure ChangedPath where
  name : String
  first : Path
  second : Path
deriving DecidableEq, Repr

/-- Differences of one kind, each list in ascending order of keys. -/
structure KindDiff where
  kind : Kind
  onlyInFirst : List String
  onlyInSecond : List String
  changed : List ChangedPath
deriving DecidableEq, Repr

namespace KindDiff

def size (diff : KindDiff) : Nat :=
  diff.onlyInFirst.length + diff.onlyInSecond.length + diff.changed.length

def isEmpty (diff : KindDiff) : Bool :=
  diff.onlyInFirst.isEmpty && diff.onlyInSecond.isEmpty && diff.changed.isEmpty

end KindDiff

namespace Comparison

def occursIn (part : List Char) : List Char → Bool
  | [] => part.isEmpty
  | c :: rest => part.isPrefixOf (c :: rest) || occursIn part rest

/-- Whether an entry for the path takes part; an empty text excludes nothing. -/
def keeps (exclude : String) (path : Path) : Bool :=
  exclude.isEmpty || !occursIn exclude.toList path.spelling.toList

def retained (exclude : String) (table : Table) : Table :=
  table.filter fun _ path => keeps exclude path

def missing (first second : Table) : List String :=
  first.keys.filter fun key => !second.contains key

def changes (first second : Table) : List ChangedPath :=
  first.toList.filterMap fun (name, path) =>
    match second[name]? with
    | some other => if path.Same other then none else some ⟨name, path, other⟩
    | none => none

def ofKind (exclude : String) (first second : Index) (kind : Kind) : KindDiff :=
  let left := retained exclude (first.entries kind)
  let right := retained exclude (second.entries kind)
  ⟨kind, missing left right, missing right left, changes left right⟩

def compare (exclude : String) (first second : Index) : List KindDiff :=
  Kind.all.map (ofKind exclude first second)

end Comparison

structure Report where
  root : Path
  first : Family
  second : Family
  exclude : String
  kinds : List KindDiff
deriving DecidableEq, Repr

namespace Report

def isConsistent (report : Report) : Bool := report.kinds.all KindDiff.isEmpty

def differences (report : Report) : Nat :=
  report.kinds.foldl (fun total diff => total + diff.size) 0

def summary (report : Report) : String :=
  if report.isConsistent then "consistent"
  else
    let kinds := report.kinds.filter fun diff => !diff.isEmpty
    let counts := kinds.map fun diff => diff.kind.text ++ ": " ++ toString diff.size
    toString report.differences ++ " difference(s) (" ++ ", ".intercalate counts ++ ")"

def mismatchMessage (report : Report) : String := "Parsers disagree: " ++ report.summary

end Report

end AutoloadIndex
