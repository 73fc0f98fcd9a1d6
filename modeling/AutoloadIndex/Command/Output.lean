import AutoloadIndex.Command.Json
import AutoloadIndex.Scan.Run
import AutoloadIndex.Settings

set_option autoImplicit false

/-!
What the program prints: results as styled text or as JSON. A printed result ends with a line
break.
-/

namespace AutoloadIndex.Command

inductive Style where
  | bold
  | dimmed
  | red
  | green
  | yellow
  | cyan
  | boldRed
  | boldGreen
deriving DecidableEq, Repr

def Style.code : Style → String
  | bold => "1"
  | dimmed => "2"
  | red => "31"
  | green => "32"
  | yellow => "33"
  | cyan => "36"
  | boldRed => "1;31"
  | boldGreen => "1;32"

def resetCode : String := "\x1b[0m"

/-- The text in a style, if colours are on. The style is taken up again after a reset in the
text. -/
def paint (color : Bool) (style : Style) (text : String) : String :=
  if color then
    let start := "\x1b[" ++ style.code ++ "m"
    start ++ (resetCode ++ start).intercalate (text.splitOn resetCode) ++ resetCode
  else text

def printed (lines : List String) : String := String.join (lines.map (· ++ "\n"))

namespace Output

def table (entries : Table) : Json :=
  .object (entries.toList.map fun (key, path) => (key, .text path.spelling))

def index (index : Index) : Json :=
  .object (Kind.all.map fun kind => (kind.text, table (index.entries kind)))

def change (change : ChangedPath) : Json :=
  .object [("name", .text change.name), ("first", .text change.first.spelling),
    ("second", .text change.second.spelling)]

def diff (diff : KindDiff) : Json :=
  .object [("kind", .text diff.kind.text),
    ("only_in_first", .list (diff.onlyInFirst.map .text)),
    ("only_in_second", .list (diff.onlyInSecond.map .text)),
    ("changed", .list (diff.changed.map change))]

def report (report : Report) : Json :=
  .object [("root", .text report.root.spelling), ("first", .text report.first.text),
    ("second", .text report.second.text), ("exclude", .text report.exclude),
    ("kinds", .list (report.kinds.map diff))]

def family (capabilities : Capabilities) (family : Family) : Json :=
  .object [("name", .text family.text), ("description", .text family.description),
    ("available", .flag (capabilities.supports family))]

def kindLines (color : Bool) (index : Index) (kind : Kind) : List String :=
  let entries := (index.entries kind).toList
  if entries.isEmpty then []
  else
    [paint color .bold ("[" ++ kind.text ++ "]")] ++
      entries.map (fun (key, path) =>
        let arrow := paint color .dimmed "=>"
        "  " ++ paint color .green key ++ " " ++ arrow ++ " " ++ path.spelling) ++
      [""]

def scan (color : Bool) (format : Format) (root : Path) (scanned : Scan.Scanned)
    (verbose : Bool) : String :=
  let registry := scanned.registry
  match format with
  | .json => printed [(index registry.index).pretty]
  | .text =>
    let told := paint color .bold "Scanned" ++ " " ++ toString registry.files ++ " files under " ++
      root.spelling ++ " with " ++ paint color .cyan scanned.family.text ++ " (" ++
      registry.policy.text ++ " policy)"
    printed (Kind.all.flatMap (kindLines color registry.index) ++
      (if verbose then [told] else []) ++ [paint color .bold registry.index.summary])

def diffLines (color : Bool) (report : Report) (diff : KindDiff) : List String :=
  if diff.isEmpty then []
  else
    [paint color .bold ("[" ++ diff.kind.text ++ "]")] ++
      diff.onlyInFirst.map (fun name =>
        "  " ++ paint color .red "-" ++ " " ++ name ++ " (only " ++ report.first.text ++ ")") ++
      diff.onlyInSecond.map (fun name =>
        "  " ++ paint color .green "+" ++ " " ++ name ++ " (only " ++ report.second.text ++ ")") ++
      diff.changed.map fun change =>
        "  " ++ paint color .yellow "~" ++ " " ++ change.name ++ ": " ++ change.first.spelling ++
          " vs " ++ change.second.spelling

def comparison (color : Bool) (format : Format) (found : Report) : String :=
  match format with
  | .json => printed [(report found).pretty]
  | .text =>
    let title := paint color .bold "Comparing" ++ " " ++ paint color .cyan found.first.text ++
      " vs " ++ paint color .cyan found.second.text
    let verdict :=
      if found.isConsistent then paint color .boldGreen "Parsers agree"
      else paint color .boldRed found.summary
    printed ([title] ++ found.kinds.flatMap (diffLines color found) ++ [verdict])

def families (color : Bool) (format : Format) (capabilities : Capabilities) : String :=
  match format with
  | .json => printed [(Json.list (Family.all.map (family capabilities))).pretty]
  | .text =>
    printed (paint color .bold "Parser families:" :: Family.all.map fun family =>
      let status :=
        if capabilities.supports family then paint color .green "available"
        else paint color .red "not built"
      let name := paint color .green family.text
      "  " ++ name ++ " - " ++ family.description ++ " (" ++ status ++ ")")

/-- A check in which only the reference family ran: what is printed, and what is warned of. -/
def referenceOnly (color : Bool) (format : Format) (reason : String) (index : Index) :
    String × String :=
  match format with
  | .json =>
    let value : Json := .object [("status", .text "reference-only"), ("reason", .text reason),
      ("entries", .number index.size)]
    (printed [value.pretty], "")
  | .text =>
    (printed [index.summary],
      printed [paint color .yellow "Warning" ++ ": " ++ reason ++ "; nothing to compare against"])

end Output

end AutoloadIndex.Command
