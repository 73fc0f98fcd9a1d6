import AutoloadIndex.Comparison
import AutoloadIndex.Registry

set_option autoImplicit false

/-!
Events of a scan, in the order in which they happen, and the lines that the scan log holds for them.
-/

namespace AutoloadIndex.Scan

inductive Event where
  | started (root : Path) (family : Family) (files : Nat)
  | collided (policy : CollisionPolicy) (collision : Collision)
  | skipped (error : ParseError)
  | completed (index : Index) (files leftOut : Nat)
  | compared (report : Report)
  | notCompared (reason : String)
  | loadedSettings (path : Path)

namespace Event

def titled (rule : Char) (width : Nat) (title : String) : List String :=
  let line := String.ofList (List.replicate width rule)
  [line, title, line]

def heading (title : String) : List String := titled '=' 60 title

def subsection (title : String) : List String := titled '-' 40 title

def diffLines (report : Report) (diff : KindDiff) : List String :=
  if diff.isEmpty then []
  else
    subsection (diff.kind.text ++ " differences") ++
      diff.onlyInFirst.map (fun name => "  only in " ++ report.first.text ++ ": " ++ name) ++
      diff.onlyInSecond.map (fun name => "  only in " ++ report.second.text ++ ": " ++ name) ++
      diff.changed.map fun change =>
        "  " ++ change.name ++ ": " ++ change.first.spelling ++ " vs " ++ change.second.spelling

/-- Messages of an event; a message may itself have several lines. -/
def messages : Event → List String
  | started root family files =>
    heading "SCAN START" ++
      ["Root: " ++ root.spelling, "Parser: " ++ family.text, "Source files: " ++ toString files]
  | collided policy collision =>
    ["COLLISION (" ++ policy.text ++ "): " ++ collision.kind.text ++ " '" ++ collision.name ++ "'",
      "  Previous: " ++ collision.previous.spelling,
      "  Incoming: " ++ collision.incoming.spelling,
      "  Kept: " ++ collision.kept.spelling]
  | skipped error =>
    ["SKIPPED: " ++ error.path.spelling, "  Reason: " ++ error.cause.message]
  | completed index files leftOut =>
    heading "SCAN COMPLETE" ++
      ["Files added: " ++ toString files, "Files skipped: " ++ toString leftOut] ++
      Kind.all.map fun kind => kind.text ++ " entries: " ++ toString (index.count kind)
  | compared report =>
    heading "CONSISTENCY CHECK" ++ [report.first.text ++ " vs " ++ report.second.text] ++
      (if report.exclude.isEmpty then [] else ["Excluding paths containing: " ++ report.exclude]) ++
      report.kinds.flatMap (diffLines report) ++ ["Result: " ++ report.summary]
  | notCompared reason => ["Consistency check skipped: " ++ reason]
  | loadedSettings path => ["Loaded config from: " ++ path.spelling]

end Event

end AutoloadIndex.Scan
