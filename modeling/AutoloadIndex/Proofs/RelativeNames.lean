import AutoloadIndex.Family
import AutoloadIndex.Proofs.Populate
import AutoloadIndex.Proofs.Resolution

set_option autoImplicit false

/-!
Names on their way from a file into the index. Whatever a file holds, and whatever program the
reference grammar makes of it, no definition has a name with a separator in front. Whatever names a
registry is given, a refused file among them, every key it stores is its own key, so an entry is
found under the key that it is listed with.
-/

namespace AutoloadIndex

namespace Name

def IsRelative (name : String) : Prop := name.toList.head? ≠ some separator

instance (name : String) : Decidable (IsRelative name) :=
  inferInstanceAs (Decidable (name.toList.head? ≠ some separator))

theorem isRelative_relative (name : String) : IsRelative (relative name) := by
  intro starts
  rw [relative, String.toList_ofList, Text.trimStart] at starts
  have stopped := List.head?_dropWhile_not (· == separator) name.toList
  rw [starts] at stopped
  simp at stopped

theorem IsRelative.front {front name : String} (begins : front.toList <+: name.toList)
    (isRelative : IsRelative name) : IsRelative front := by
  obtain ⟨behind, whole⟩ := begins
  intro starts
  refine isRelative ?_
  rw [← whole, List.head?_append, starts, Option.some_or]

theorem isRelative_bare (scope : String) : IsRelative (bare scope) := by
  refine (isRelative_relative scope).front ?_
  rw [bare, relative, String.toList_ofList, String.toList_ofList]
  exact List.rdropWhile_prefix _ _

theorem IsRelative.join {scope : String} (isRelative : IsRelative scope) (filled : scope ≠ "")
    (name : String) : IsRelative (join scope name) := by
  obtain ⟨c, rest, isScope⟩ := List.exists_cons_of_ne_nil (mt String.toList_eq_nil_iff.mp filled)
  simpa [IsRelative, Name.join, isScope] using isRelative

theorem isRelative_qualify (scope : Option String) (name : String) :
    IsRelative (qualify scope name) := by
  unfold qualify
  cases scope with
  | none => exact isRelative_relative name
  | some scope =>
      simp only [Option.map_some, String.isEmpty_iff]
      split
      case isTrue => exact isRelative_relative name
      case isFalse filled => exact (isRelative_bare scope).join filled _

end Name

namespace FactScan

open Name (IsRelative)

theorem State.isRelative_declared {state : State} {keyword : Keyword} {rest : List Lexeme}
    {symbol : Symbol} (found : state.declared keyword rest = some symbol) :
    IsRelative symbol.name := by
  have qualified : ∀ {kind : Kind} {name : Option (List Char)},
      name.map (state.qualified kind) = some symbol → IsRelative symbol.name := by
    intro kind name isSymbol
    obtain ⟨text, -, rfl⟩ := Option.map_eq_some_iff.mp isSymbol
    exact Name.isRelative_qualify state.scope _
  cases keyword with
  | classDecl | interfaceDecl | traitDecl | enumDecl | functionDecl | typeDecl =>
      exact qualified found
  | defineCall =>
      obtain ⟨text, -, rfl⟩ := Option.map_eq_some_iff.mp found
      exact Name.isRelative_relative _
  | haltCompiler | namespaceScope | constDecl => cases found

theorem isRelative_scan {state : State} {lexemes : List Lexeme} {found : List Symbol}
    (scanned : scan state lexemes = .ok found) : ∀ symbol ∈ found, IsRelative symbol.name := by
  induction lexemes generalizing state found with
  | nil =>
      rw [scan] at scanned
      split at scanned
      · cases scanned
        simp
      · cases scanned
  | cons lexeme rest inductionHypothesis =>
      have behind : ∀ {next : State} {here : List Symbol},
          (scan next rest).map (here ++ ·) = .ok found →
          (∀ symbol ∈ here, IsRelative symbol.name) →
          ∀ symbol ∈ found, IsRelative symbol.name := by
        intro next here result inFront
        cases later : scan next rest with
        | error fault =>
            rw [later] at result
            cases result
        | ok more =>
            rw [later] at result
            cases result
            exact List.forall_mem_append.mpr ⟨inFront, inductionHypothesis later⟩
      rw [scan] at scanned
      split at scanned
      case h_1 items reading =>
          refine behind scanned ?_
          intro symbol membership
          obtain ⟨name, -, rfl⟩ := Option.map_eq_some_iff.mp (Option.mem_toList.mp membership)
          exact Name.isRelative_qualify state.scope _
      case h_2 =>
          split at scanned
          case h_1 => cases scanned; simp
          case h_2 keyword _ =>
              refine behind scanned ?_
              intro symbol membership
              exact State.isRelative_declared (Option.mem_toList.mp membership)
          case h_3 =>
              split at scanned
              · cases scanned
              · exact inductionHypothesis scanned

theorem exists_scan_of_parse {content : List UInt8} {path : Path} {definitions : List Definition}
    (parsed : parse content path = .ok definitions) :
    ∃ lexemes found, scan {} lexemes = .ok found ∧ definitions = found.map (·.definedIn path) := by
  unfold parse symbols at parsed
  cases lexed : lexFile path (Text.decode content) with
  | error fault => simp [lexed] at parsed
  | ok lexemes =>
      cases scanned : scan {} lexemes with
      | error fault => cases fault <;> simp [lexed, scanned] at parsed
      | ok found =>
          simp only [lexed, scanned, Except.ok.injEq] at parsed
          exact ⟨lexemes, found, scanned, parsed.symm⟩

end FactScan

namespace Reference

open Name (IsRelative)
open Program (Statement)

mutual

theorem isRelative_symbolsOf (scope : Option String) :
    (statement : Statement) → ∀ symbol ∈ (symbolsOf scope statement).1, IsRelative symbol.name
  | .scope _ name _ body => isRelative_symbolsOfAll (scopeName name) body
  | .declaration _ kind names => by
      intro symbol membership
      obtain ⟨name, -, rfl⟩ := List.mem_map.mp membership
      exact Name.isRelative_qualify scope name
  | .call _ function literal => by
      intro symbol membership
      obtain ⟨name, -, rfl⟩ := List.mem_map.mp membership
      exact Name.isRelative_relative _
  | .other _ => by simp [symbolsOf]

theorem isRelative_symbolsOfAll (scope : Option String) :
    (program : List Statement) → ∀ symbol ∈ (symbolsOfAll scope program).1, IsRelative symbol.name
  | [] => by simp [symbolsOfAll]
  | statement :: rest => by
      rw [symbolsOfAll]
      exact List.forall_mem_append.mpr
        ⟨isRelative_symbolsOf scope statement, isRelative_symbolsOfAll _ rest⟩

end

/-- This holds for every program, so it does not depend on the grammar. -/
theorem isRelative_collect (program : List Statement) (aliases : List Dialect.TypeAlias) :
    ∀ symbol ∈ collect program aliases, IsRelative symbol.name := by
  refine List.forall_mem_append.mpr ⟨isRelative_symbolsOfAll none program, ?_⟩
  intro symbol membership
  obtain ⟨found, -, rfl⟩ := List.mem_map.mp membership
  exact Name.isRelative_qualify _ _

theorem exists_collect_of_parse {outline : Program.Outliner} {content : List UInt8} {path : Path}
    {definitions : List Definition} (parsed : parse outline content path = .ok definitions) :
    ∃ program aliases, definitions = (collect program aliases).map (·.definedIn path) := by
  unfold parse symbols at parsed
  dsimp only at parsed
  split at parsed
  case h_1 found collected =>
      split at collected
      case h_1 program outlined =>
          cases collected
          cases parsed
          exact ⟨program, _, rfl⟩
      case h_2 => cases collected
  case h_2 => cases parsed

end Reference

namespace Family

theorem isRelative_defined {found : List Symbol} {path : Path}
    (isRelative : ∀ symbol ∈ found, Name.IsRelative symbol.name) :
    ∀ definition ∈ found.map (·.definedIn path),
      Name.IsRelative definition.name ∧ definition.source = path := by
  intro definition membership
  obtain ⟨symbol, inFound, rfl⟩ := List.mem_map.mp membership
  exact ⟨isRelative symbol inFound, rfl⟩

theorem isRelative_parsed {outline : Program.Outliner} {family : Family} {content : List UInt8}
    {path : Path} {definitions : List Definition}
    (parsed : family.parserOver outline content path = .ok definitions) :
    ∀ definition ∈ definitions, Name.IsRelative definition.name ∧ definition.source = path := by
  cases family with
  | reference =>
      obtain ⟨program, aliases, rfl⟩ := Reference.exists_collect_of_parse parsed
      exact isRelative_defined (Reference.isRelative_collect program aliases)
  | factScan =>
      obtain ⟨lexemes, found, scanned, rfl⟩ := FactScan.exists_scan_of_parse parsed
      exact isRelative_defined (FactScan.isRelative_scan scanned)

end Family

/-- Every key that is stored is its own key. -/
def Index.Canonical (index : Index) : Prop :=
  ∀ kind, ∀ key ∈ index.entries kind, Name.key kind key = key

namespace Index

theorem canonical_empty : Canonical {} := by
  intro kind key stored
  cases kind <;> exact absurd stored Std.TreeMap.not_mem_emptyc

theorem Canonical.insert {index : Index} (canonical : index.Canonical) (kind : Kind) (name : String)
    (path : Path) : (index.insert kind name path).Canonical := by
  intro other key stored
  rw [Index.insert, entries_withEntries] at stored
  split at stored
  case isTrue sameKind =>
      subst sameKind
      rw [Std.TreeMap.mem_insert, Std.LawfulEqCmp.compare_eq_iff_eq] at stored
      rcases stored with rfl | before
      · exact Name.key_key kind name
      · exact canonical kind key before
  case isFalse => exact canonical other key stored

theorem Canonical.get? {index : Index} (canonical : index.Canonical) {kind : Kind}
    {entry : String × Path} (listed : entry ∈ (index.entries kind).toList) :
    Name.key kind entry.1 = entry.1 ∧ index.get? kind entry.1 = some entry.2 := by
  have stored := Std.TreeMap.mem_toList_iff_getElem?_eq_some.mp listed
  have isKey := canonical kind entry.1 (Std.TreeMap.mem_iff_isSome_getElem?.mpr (by simp [stored]))
  refine ⟨isKey, ?_⟩
  rw [Index.get?, isKey, stored]

end Index

namespace Registry

inductive Operation where
  | adopt (policy : CollisionPolicy)
  | add (path : Path) (symbols : List Symbol)
  | addFile (read : Reader) (parse : Parser) (path : Path)

/-- The registry after an operation, also after one that fails. -/
def perform (registry : Registry) : Operation → Registry
  | .adopt policy => { registry with policy }
  | .add path symbols => (registry.add path symbols).1
  | .addFile read parse path => (registry.addFile read parse path).1

def performAll (registry : Registry) (operations : List Operation) : Registry :=
  operations.foldl perform registry

theorem canonical_insertAll {registry : Registry} (canonical : registry.index.Canonical)
    (path : Path) (symbols : List Symbol) :
    (registry.insertAll path symbols).1.index.Canonical := by
  induction symbols generalizing registry with
  | nil => exact canonical
  | cons symbol rest inductionHypothesis =>
      rw [insertAll]
      rcases registry.insert_cases ⟨path, symbol⟩ with
        ⟨collision, inserted, -⟩ | ⟨existing, collision, inserted, -⟩ | ⟨duplicate, refused, -⟩
      · rw [inserted]
        exact inductionHypothesis (canonical.insert symbol.kind symbol.name path)
      · rw [inserted]
        exact inductionHypothesis canonical
      · rw [refused]
        exact canonical

theorem canonical_add {registry : Registry} (canonical : registry.index.Canonical) (path : Path)
    (symbols : List Symbol) : (registry.add path symbols).1.index.Canonical := by
  have inserted := canonical_insertAll canonical path symbols
  unfold add
  split
  case h_1 next _ added =>
      rw [added] at inserted
      exact inserted
  case h_2 next _ refused =>
      rw [refused] at inserted
      exact inserted

theorem canonical_perform {registry : Registry} (canonical : registry.index.Canonical)
    (operation : Operation) : (registry.perform operation).index.Canonical := by
  cases operation with
  | adopt policy => exact canonical
  | add path symbols => exact canonical_add canonical path symbols
  | addFile read parse path =>
      cases loaded : loadFile read parse path with
      | error fault =>
          rw [perform, addFile_not_loaded loaded]
          exact canonical
      | ok definitions =>
          rw [perform, addFile_loaded loaded]
          exact canonical_add canonical path _

theorem canonical_performAll {registry : Registry} (canonical : registry.index.Canonical)
    (operations : List Operation) : (registry.performAll operations).index.Canonical := by
  induction operations generalizing registry with
  | nil => exact canonical
  | cons operation rest inductionHypothesis =>
      exact inductionHypothesis (canonical_perform canonical operation)

/-- Names have no separator in front in what the parsers of the families report, whatever outlines
the reference family has, and in what it collects from any program. Keys stay canonical in whatever
is done to a registry, whatever the names, and each entry is found under its key. -/
theorem parsed_relative_stored_canonical :
    (∀ (outline : Program.Outliner) (family : Family) (content : List UInt8) (path : Path)
      (definitions : List Definition), family.parserOver outline content path = .ok definitions →
        ∀ definition ∈ definitions, Name.IsRelative definition.name ∧ definition.source = path) ∧
    (∀ (program : List Program.Statement) (aliases : List Dialect.TypeAlias) (path : Path),
      ∀ definition ∈ (Reference.collect program aliases).map (·.definedIn path),
        Name.IsRelative definition.name ∧ definition.source = path) ∧
    ∀ (operations : List Operation) (kind : Kind),
      ∀ entry ∈ ((performAll {} operations).index.entries kind).toList,
        Name.key kind entry.1 = entry.1 ∧
          (performAll {} operations).index.get? kind entry.1 = some entry.2 :=
  ⟨fun _ _ _ _ _ => Family.isRelative_parsed,
    fun _ aliases _ => Family.isRelative_defined (Reference.isRelative_collect _ aliases),
    fun operations _ _ => (canonical_performAll Index.canonical_empty operations).get?⟩

/-- The content `<?php define('\\X', 1);`, where the name begins with a separator. -/
def separatedConstant : List UInt8 := [
  60, 63, 112, 104, 112, 32, 100, 101, 102, 105, 110, 101, 40, 39, 92, 92, 88, 39, 44, 32, 49, 41,
  59]

def halfRefused : List Operation := [
  .adopt .error, .add ⟨"a.php"⟩ [⟨.classLike, "\\App\\A"⟩],
  .add ⟨"b.php"⟩ [⟨.constant, "\\\\N"⟩, ⟨.classLike, "app\\a"⟩]]

theorem stored_halfRefused :
    (∀ family : Family, family.parser separatedConstant ⟨"a.php"⟩ =
        .ok [Symbol.definedIn ⟨.constant, "X"⟩ ⟨"a.php"⟩] ∧
      ∀ definition ∈ [Symbol.definedIn ⟨.constant, "X"⟩ ⟨"a.php"⟩],
        Name.IsRelative definition.name ∧ definition.source = ⟨"a.php"⟩) ∧
      ("N", ⟨"b.php"⟩) ∈ ((performAll {} halfRefused).index.entries .constant).toList ∧
      Name.key .constant "N" = "N" ∧
      (performAll {} halfRefused).index.get? .constant "N" = some ⟨"b.php"⟩ := by
  have parsed : ∀ family : Family, family.parser separatedConstant ⟨"a.php"⟩ =
      .ok [Symbol.definedIn ⟨.constant, "X"⟩ ⟨"a.php"⟩] := by
    intro family
    cases family <;> decide +kernel
  have listed :
      ("N", ⟨"b.php"⟩) ∈ ((performAll {} halfRefused).index.entries .constant).toList := by
    decide +kernel
  obtain ⟨relative, -, canonical⟩ := parsed_relative_stored_canonical
  refine ⟨?_, listed, canonical halfRefused .constant ("N", ⟨"b.php"⟩) listed⟩
  intro family
  exact ⟨parsed family,
    relative Program.outline family separatedConstant ⟨"a.php"⟩ _ (parsed family)⟩

end Registry

end AutoloadIndex
