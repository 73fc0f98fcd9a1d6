import AutoloadIndex.Command.Run

set_option autoImplicit false

/-!
The program. It takes a picture of the part of the file system that its arguments speak of, runs on
that picture, and writes what the run gives.
-/

namespace AutoloadIndex.Command

def spelled (place : Place) : String := "/" ++ "/".intercalate place

def placeOf (path : String) : Place := FileTree.names ⟨path⟩

/-- Where a link leads whose target does not exist: no name holds the zero character. -/
def nowhere : Path := ⟨"/\x00"⟩

/-- Adds what is at a place whose directory is no link, if anything is there, and gives the place
that it leads to. Files are read only if a run can ask for their contents. -/
def addEntry (tree : FileTree) (here : Place) (named : Bool) : IO (FileTree × Place) := do
  let path := (← IO.currentDir) / spelled here
  if !(← path.pathExists) then return (tree, here)
  let target := placeOf (← IO.FS.realPath path).toString
  let tree := if target = here then tree else tree.put here (.link ⟨spelled target⟩)
  match (← path.metadata).type with
  | .dir => return (tree.put target .directory, target)
  | .file =>
    let isRead := named || target ≠ here || Scan.isSourceFile ⟨spelled here⟩
    let content ← if isRead then (·.toList) <$> IO.FS.readBinFile path else pure []
    return (tree.put target (.file content), target)
  | _ => return (tree, target)

def addPath (tree : FileTree) (place : Place) : List String → IO (FileTree × Place)
  | [] => return (tree, place)
  | name :: rest => do
    if name = "." then addPath tree place rest
    else if name = ".." then addPath tree place.dropLast rest
    else
      let (tree, place) ← addEntry tree (place ++ [name]) true
      addPath tree place rest

partial def addBelow (tree : FileTree) (place : Place) : IO FileTree := do
  if !tree.isDirectory place then return tree
  let mut tree := tree
  for item in ← ((← IO.currentDir) / spelled place).readDir do
    let here := place ++ [item.fileName]
    if (tree.entryAt here).isNone then
      let (next, target) ← addEntry tree here false
      if (next.entryAt here).isNone then tree := next.put here (.link nowhere)
      else tree ← addBelow next target
  return tree

def addNamed (tree : FileTree) (path : Path) (withContents : Bool) : IO FileTree := do
  let (tree, place) ← addPath tree (tree.start path) (FileTree.names path)
  if withContents then addBelow tree place else return tree

/-- The part of the file system that a run can ask for. -/
def picture (arguments : Arguments) : IO FileTree := do
  let directory := placeOf (← IO.currentDir).toString
  let mut tree : FileTree := { workingDirectory := directory }
  tree ← addNamed tree ⟨spelled directory⟩ false
  match arguments.action with
  | .scan path .. | .check path _ => tree ← addNamed tree path true
  | .parsers => pure ()
  for path in arguments.config.toList ++ arguments.logFile.toList do
    tree ← addNamed tree path false
  for above in (List.range (directory.length + 1)).map directory.take do
    tree ← addNamed tree ⟨spelled (above ++ [Settings.fileName])⟩ false
  return tree

def wantsColor : IO Bool := do
  let isSet (value : Option String) : Bool := value.any (· ≠ "0")
  if isSet (← IO.getEnv "CLICOLOR_FORCE") then return true
  if (← IO.getEnv "NO_COLOR").isSome then return false
  if (← IO.getEnv "CLICOLOR") = some "0" then return false
  (← IO.getStdout).isTty

/-- Empties the log, or makes it, and gives the time of that. -/
def openLog (path : Path) : IO Timestamp := do
  IO.FS.writeFile path.spelling ""
  let time := (← ((← IO.currentDir) / path.spelling).metadata).modified
  return ⟨time.sec.toNat, time.nsec.toNat / 1000000⟩

end AutoloadIndex.Command

open AutoloadIndex Command in
def main (args : List String) : IO UInt32 := do
  let color ← wantsColor
  let finish ← match readArguments args with
    | .error _ => pure (run { tree := {}, color } args)
    | .ok arguments =>
      let opened ← arguments.logFile.mapM fun path =>
        try some <$> openLog path catch _ => pure none
      let time := opened.join.getD {}
      let finish := run { tree := ← picture arguments, time, color } args
      if let (some path, some (some time)) := (arguments.logFile, opened) then
        IO.FS.writeFile path.spelling (logText time finish.log)
      pure finish
  (← IO.getStdout).putStr finish.output
  (← IO.getStderr).putStr finish.errors
  return finish.code.toUInt32
