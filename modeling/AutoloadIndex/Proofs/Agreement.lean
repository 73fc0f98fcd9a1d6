import AutoloadIndex.Program.Outline
import AutoloadIndex.Proofs.LiftedAliases
import AutoloadIndex.Proofs.ProgramTree
import AutoloadIndex.Proofs.Relexing

set_option autoImplicit false

/-!
Where both parsers agree. A file may be a program of the declaration grammar by its lexemes, and a
full parser may give the outline of that program for the lowered file. Then the fact scan finds what
the reference parser finds, but for the order, since the reference parser puts aliases last.
-/

namespace AutoloadIndex

open Dialect (TypeAlias)
open Reference (scopesOfAll symbolsOfAll)

section Scopes

def aliasIn (scopes : List Reference.Scope) (scope : Option String) (found : TypeAlias) : Symbol :=
  ⟨.typeAlias, Name.qualify (scopes.foldl (Reference.Scope.overrule found.offset) scope)
    (.ofList found.name)⟩

theorem aliasIn_open {span : Program.Span} {name : Option String} {braced : Bool}
    {places : List Reference.Scope} {found : TypeAlias}
    (started : span.start ≤ found.offset) (isOpen : braced = true → found.offset < span.stop)
    (scope : Option String) :
    aliasIn (⟨span, name, braced⟩ :: places) scope found = aliasIn places name found := by
  have notClosed : ¬ (braced = true ∧ span.stop ≤ found.offset) := fun closed =>
    absurd closed.2 (Nat.not_le.mpr (isOpen closed.1))
  rw [aliasIn, List.foldl_cons, Reference.Scope.overrule, if_pos started, if_neg notClosed]
  rfl

theorem aliasIn_closed {span : Program.Span} {name : Option String}
    {places : List Reference.Scope} {found : TypeAlias}
    (started : span.start ≤ found.offset) (closed : span.stop ≤ found.offset)
    (scope : Option String) :
    aliasIn (⟨span, name, true⟩ :: places) scope found = aliasIn places none found := by
  rw [aliasIn, List.foldl_cons, Reference.Scope.overrule, if_pos started, if_pos ⟨rfl, closed⟩]
  rfl

theorem aliasIn_of_later {places : List Reference.Scope} {found : TypeAlias}
    (later : ∀ place ∈ places, found.offset < place.span.start) (scope : Option String) :
    aliasIn places scope found = aliasIn [] scope found := by
  rw [aliasIn, Reference.foldl_overrule_of_later scope later]
  rfl

end Scopes

structure Consecutive (lexemes : List Lexeme) : Prop where
  filled : ∀ lexeme ∈ lexemes, lexeme.start < lexeme.stop
  ordered : lexemes.Pairwise fun first second => first.stop ≤ second.start

namespace Consecutive

variable {first second : List Lexeme}

theorem of_append (consecutive : Consecutive (first ++ second)) :
    Consecutive first ∧ Consecutive second ∧
      ∀ lexeme ∈ first, ∀ other ∈ second,
        lexeme.start < other.start ∧ lexeme.stop ≤ other.start := by
  obtain ⟨filled, ordered⟩ := consecutive
  obtain ⟨firstFilled, secondFilled⟩ := List.forall_mem_append.mp filled
  obtain ⟨firstOrdered, secondOrdered, apart⟩ := List.pairwise_append.mp ordered
  refine ⟨⟨firstFilled, firstOrdered⟩, ⟨secondFilled, secondOrdered⟩, ?_⟩
  intro lexeme inFirst other inSecond
  have isBehind := apart lexeme inFirst other inSecond
  exact ⟨Nat.lt_of_lt_of_le (firstFilled lexeme inFirst) isBehind, isBehind⟩

end Consecutive

def StandIn (aliases : List TypeAlias) (lexemes : List Lexeme) : Prop :=
  ∀ found ∈ aliases, ∃ lexeme ∈ lexemes, lexeme.start = found.offset

theorem StandIn.mono {aliases : List TypeAlias} {lexemes others : List Lexeme}
    (standIn : StandIn aliases lexemes) (among : lexemes ⊆ others) : StandIn aliases others := by
  intro found member
  obtain ⟨lexeme, inLexemes, isStart⟩ := standIn found member
  exact ⟨lexeme, among inLexemes, isStart⟩

theorem StandIn.append {first second : List TypeAlias} {lexemes others : List Lexeme}
    (front : StandIn first lexemes) (back : StandIn second others) :
    StandIn (first ++ second) (lexemes ++ others) :=
  List.forall_mem_append.mpr
    ⟨front.mono (List.subset_append_left _ _), back.mono (List.subset_append_right _ _)⟩

/-- Statements and aliases declare what is declared, each their kinds, in a namespace that qualifies
names in the same way. -/
def Agree (symbols : Option String → List Symbol) (aliases : List TypeAlias)
    (found : List Program.Statement) : Prop :=
  ∀ scope other, Name.qualify scope = Name.qualify other →
    (symbolsOfAll scope found).1 = (symbols other).filter (·.kind ≠ .typeAlias) ∧
      aliases.map (aliasIn (scopesOfAll found) scope) =
        (symbols other).filter (·.kind = .typeAlias)

namespace FactScan

theorem Statement.aliases_standIn (statement : Statement) (lexemes : List Lexeme) :
    StandIn (statement.aliases lexemes) lexemes := by
  cases statement with
  | typeAlias keyword name definition =>
      intro found member
      obtain ⟨first, isFirst, rfl⟩ := List.mem_map.mp member
      exact ⟨first, List.mem_of_mem_head? (Option.mem_toList.mp isFirst), rfl⟩
  | _ => exact List.forall_mem_nil _

theorem ReadAs.aliases {statement : Statement} {found : List Program.Statement}
    (reads : ReadAs statement found) {lexemes : List Lexeme}
    (spelled : lexemes.map Lexeme.token = statement.tokens) {scope other : Option String}
    (same : Name.qualify scope = Name.qualify other) :
    (statement.aliases lexemes).map (aliasIn [] scope) =
      (statement.symbols other).filter (·.kind = .typeAlias) := by
  cases reads with
  | typeAlias =>
      obtain ⟨first, rest, rfl, -, -⟩ := List.map_eq_cons_iff.mp spelled
      simp [Statement.aliases, Statement.symbols, aliasIn, same]
  | define =>
      simp only [Statement.aliases, Statement.symbols, List.map_nil]
      cases Literal.value _ <;> simp
  | constants => simp [Statement.aliases, Statement.symbols]
  | _ => simp [Statement.aliases, Statement.symbols]

theorem ItemsTree.lowers {items : List Item} {lexemes : List Lexeme}
    {found : List Program.Statement} (tree : ItemsTree items lexemes found)
    (closed : ∀ item ∈ items, item.statement.Closed) :
    ∃ aliases, (∀ outer, Lowers outer lexemes aliases) ∧ StandIn aliases lexemes ∧
      ∀ scope other, Name.qualify scope = Name.qualify other → aliases.map (aliasIn [] scope) =
        (inTurn Item.symbols Item.scopeAfter other items).filter (·.kind = .typeAlias) := by
  induction tree with
  | nil => exact ⟨[], fun _ => .nil, List.forall_mem_nil _, fun _ _ _ => rfl⟩
  | @cons item rest run more found others spelled reads _ inductionHypothesis =>
      obtain ⟨isClosed, restClosed⟩ := List.forall_mem_cons.mp closed
      obtain ⟨aliases, lowers, standIn, declared⟩ := inductionHypothesis restClosed
      refine ⟨item.statement.aliases run ++ aliases,
        fun outer => (Lowers.item item isClosed spelled).append (lowers outer), ?_, ?_⟩
      · exact (item.statement.aliases_standIn run).append standIn
      · intro scope other same
        rw [List.map_append, reads.aliases spelled same, declared scope other same, inTurn,
          List.filter_append, Item.scopeAfter, reads.scopeAfter]
        rfl

def Part.items : Part → List Item
  | .item only => [only]
  | .block _ _ _ items => items

def Program.Closed (program : Program) : Prop :=
  ∀ part ∈ program, ∀ item ∈ part.items, item.statement.Closed

instance (program : Program) : Decidable program.Closed :=
  inferInstanceAs (Decidable (∀ part ∈ program, ∀ item ∈ part.items, item.statement.Closed))

theorem Program.Closed.of_items {items : List Item} {rest : Program}
    (closed : Program.Closed (items.map Part.item ++ rest)) :
    (∀ item ∈ items, item.statement.Closed) ∧ Program.Closed rest := by
  obtain ⟨itemsClosed, restClosed⟩ := List.forall_mem_append.mp closed
  refine ⟨fun item member => ?_, restClosed⟩
  exact itemsClosed _ (List.mem_map_of_mem member) item (List.mem_singleton_self item)

section Parts

variable {rest : Program} {items : List Item} {run more : List Lexeme}
  {found others : List Program.Statement} {aliases further : List TypeAlias}

theorem agree_items (tree : ItemsTree items run found)
    (declared : ∀ scope other, Name.qualify scope = Name.qualify other →
      aliases.map (aliasIn [] scope) =
        (inTurn Item.symbols Item.scopeAfter other items).filter (·.kind = .typeAlias))
    (inFront : ∀ taken ∈ aliases, ∀ place ∈ scopesOfAll others, taken.offset < place.span.start)
    (agree : Agree (declaredBy · rest) further others) :
    Agree (declaredBy · (items.map Part.item ++ rest)) (aliases ++ further) (found ++ others) := by
  intro scope other same
  obtain ⟨inRest, aliasesInRest⟩ := agree scope other same
  have first : aliases.map (aliasIn (scopesOfAll others) scope) = aliases.map (aliasIn [] scope) :=
    List.map_congr_left fun taken member => aliasIn_of_later (inFront taken member) scope
  simp only [tree.declaredBy_append, List.filter_append]
  rw [Reference.symbolsOfAll_append, Reference.symbolsOfAll_flat tree.flat, tree.symbols same,
    inRest, Reference.scopesOfAll_append, Reference.scopesOfAll_flat tree.flat, List.nil_append,
    List.map_append, first, declared scope other same, aliasesInRest]
  exact ⟨rfl, rfl⟩

theorem agree_inScope {item : Item} {keyword name : List Char} {tail : Program}
    {span : Program.Span} {body : List Program.Statement}
    (isScope : item.statement = .inScope keyword name)
    (flat : ∀ statement ∈ body, statement.isNamespace = false)
    (started : ∀ taken ∈ aliases, span.start ≤ taken.offset)
    (agree : Agree (declaredBy · tail) aliases (body ++ others)) :
    Agree (declaredBy · (.item item :: tail)) aliases
      (.scope span (some (.ofList name)) false body :: others) := by
  intro scope other _
  obtain ⟨inTail, aliasesInTail⟩ :=
    agree _ _ (Reference.qualify_scopeName (some (.ofList name)))
  have declared : declaredBy other (.item item :: tail) =
      declaredBy (some (Name.bare (.ofList name))) tail := by
    simp [declaredBy, inTurn, Part.symbols, Part.scopeAfter, Item.symbols, Item.scopeAfter, isScope,
      Statement.symbols, Statement.scopeAfter]
  have isOpen : aliases.map (aliasIn (scopesOfAll
        (.scope span (some (.ofList name)) false body :: others)) scope) =
      aliases.map (aliasIn (scopesOfAll others)
        (Reference.scopeName (some (.ofList name)))) := by
    rw [Reference.scopesOfAll, Reference.scopesOf, Reference.scopesOfAll_flat flat]
    exact List.map_congr_left fun taken member =>
      aliasIn_open (started taken member) (fun braced => absurd braced Bool.false_ne_true) scope
  rw [Reference.scopesOfAll_append, Reference.scopesOfAll_flat flat] at aliasesInTail
  rw [Reference.symbolsOfAll_append] at inTail
  simp only [declared]
  rw [isOpen]
  exact ⟨inTail, aliasesInTail⟩

theorem agree_block {keyword : List Char}
    {isKeyword : Keyword.ofWord? keyword = some .namespaceScope} {name : Option (List Char)}
    {first close : Lexeme} (tree : ItemsTree items run found)
    (declared : ∀ scope other, Name.qualify scope = Name.qualify other →
      aliases.map (aliasIn [] scope) =
        (inTurn Item.symbols Item.scopeAfter other items).filter (·.kind = .typeAlias))
    (inside : ∀ taken ∈ aliases, first.start ≤ taken.offset ∧ taken.offset < close.stop ∧
      ∀ place ∈ scopesOfAll others, taken.offset < place.span.start)
    (outside : ∀ taken ∈ further, first.start ≤ taken.offset ∧ close.stop ≤ taken.offset)
    (agree : Agree (declaredBy · rest) further others) :
    Agree (declaredBy · (.block keyword isKeyword name items :: rest)) (aliases ++ further)
      (.scope ⟨first.start, close.stop⟩ (name.map String.ofList) true found :: others) := by
  intro scope other _
  obtain ⟨inRest, aliasesInRest⟩ := agree none none rfl
  have same := Reference.qualify_scopeName (name.map String.ofList)
  rw [Option.map_map] at same
  let places := scopesOfAll
    (.scope ⟨first.start, close.stop⟩ (name.map String.ofList) true found :: others)
  have recorded : places = ⟨⟨first.start, close.stop⟩,
      Reference.scopeName (name.map String.ofList), true⟩ :: scopesOfAll others := by
    simp only [places, Reference.scopesOfAll, Reference.scopesOf,
      Reference.scopesOfAll_flat tree.flat, List.cons_append, List.nil_append]
  have isOpen : aliases.map (aliasIn places scope) =
      aliases.map (aliasIn [] (Reference.scopeName (name.map String.ofList))) := by
    refine List.map_congr_left fun taken member => ?_
    obtain ⟨started, notClosed, inFront⟩ := inside taken member
    rw [recorded, aliasIn_open started (fun _ => notClosed), aliasIn_of_later inFront]
  have isClosed : further.map (aliasIn places scope) =
      further.map (aliasIn (scopesOfAll others) none) := by
    refine List.map_congr_left fun taken member => ?_
    obtain ⟨started, closed⟩ := outside taken member
    rw [recorded, aliasIn_closed started closed]
  have split : declaredBy other (.block keyword isKeyword name items :: rest) =
      inTurn Item.symbols Item.scopeAfter (name.map (Name.bare ∘ String.ofList)) items ++
        declaredBy none rest := rfl
  simp only [split, List.filter_append]
  rw [List.map_append, isOpen, isClosed, declared _ _ same, aliasesInRest, ← tree.symbols same,
    ← inRest]
  exact ⟨rfl, rfl⟩

end Parts

/-- Aliases that lowering takes out of the lexemes of a program, which together with its outline
declare what the program does. -/
structure Lifts (program : Program) (lexemes : List Lexeme) (found : List Program.Statement)
    (aliases : List TypeAlias) : Prop where
  lowers : Lowers [] lexemes aliases
  standIn : StandIn aliases lexemes
  agree : Agree (declaredBy · program) aliases found

section Lifts

variable {items : List Item} {rest : Program} {run more : List Lexeme}
  {found others : List Program.Statement} {aliases further : List TypeAlias}

/-- Namespaces on record stand behind the aliases in front of them. -/
theorem ProgramTree.scopes_behind (tree : ProgramTree rest more others)
    (standIn : StandIn aliases run)
    (apart : ∀ lexeme ∈ run, ∀ other ∈ more,
      lexeme.start < other.start ∧ lexeme.stop ≤ other.start) :
    ∀ taken ∈ aliases, ∀ place ∈ scopesOfAll others, taken.offset < place.span.start := by
  intro taken member place recorded
  obtain ⟨lexeme, inRun, isStart⟩ := standIn taken member
  obtain ⟨other, inMore, isPlace⟩ := tree.scopes place recorded
  rw [← isStart, ← isPlace]
  exact (apart lexeme inRun other inMore).1

theorem exists_lifts_items (inner : ItemsTree items run found) (tree : ProgramTree rest more others)
    (closed : ∀ item ∈ items, item.statement.Closed) (consecutive : Consecutive (run ++ more))
    (lifts : Lifts rest more others further) :
    ∃ aliases, Lifts (items.map Part.item ++ rest) (run ++ more) (found ++ others) aliases := by
  obtain ⟨-, -, apart⟩ := consecutive.of_append
  obtain ⟨aliases, lowers, standIn, declared⟩ := inner.lowers closed
  refine ⟨aliases ++ further, (lowers []).append lifts.lowers, standIn.append lifts.standIn, ?_⟩
  exact agree_items inner declared (tree.scopes_behind standIn apart) lifts.agree

theorem lifts_inScope {item : Item} {keyword name : List Char} {first : Lexeme}
    {head : List Lexeme} {span : Program.Span} (isScope : item.statement = .inScope keyword name)
    (closed : item.statement.Closed) (spelled : (first :: head).map Lexeme.token = item.tokens)
    (starts : span.start = first.start) (flat : ∀ statement ∈ found, statement.isNamespace = false)
    (consecutive : Consecutive ((first :: head) ++ run)) {tail : Program}
    (lifts : Lifts tail run (found ++ others) aliases) :
    Lifts (.item item :: tail) (first :: (head ++ run))
      (.scope span (some (.ofList name)) false found :: others) aliases := by
  obtain ⟨-, -, apart⟩ := consecutive.of_append
  have lowers := @Lowers.item [] _ item closed spelled
  have nothing : item.statement.aliases (first :: head) = [] := by rw [isScope]; rfl
  rw [nothing] at lowers
  refine ⟨lowers.append lifts.lowers,
    lifts.standIn.mono (List.subset_append_right (first :: head) _),
    agree_inScope isScope flat (fun taken member => ?_) lifts.agree⟩
  obtain ⟨lexeme, inRun, isStart⟩ := lifts.standIn taken member
  rw [starts, ← isStart]
  exact Nat.le_of_lt (apart first List.mem_cons_self lexeme inRun).1

theorem exists_lifts_block {keyword : List Char}
    {isKeyword : Keyword.ofWord? keyword = some .namespaceScope} {name : Option (List Char)}
    {first brace close : Lexeme} {named : List Lexeme} (isWord : first.token = .ident keyword)
    (isNamed : named.map Lexeme.token = (name.map Token.ident).toList)
    (isBrace : brace.token = .punct '{') (isClose : close.token = .punct '}')
    (inner : ItemsTree items run found) (tree : ProgramTree rest more others)
    (closed : ∀ item ∈ items, item.statement.Closed)
    (consecutive : Consecutive ((first :: (named ++ [brace])) ++ (run ++ ([close] ++ more))))
    (lifts : Lifts rest more others further) :
    ∃ aliases, Lifts (.block keyword isKeyword name items :: rest)
      (first :: (named ++ brace :: (run ++ close :: more)))
      (.scope ⟨first.start, close.stop⟩ (name.map String.ofList) true found :: others) aliases := by
  obtain ⟨-, behind, apartFirst⟩ := consecutive.of_append
  obtain ⟨-, closing, apartInner⟩ := behind.of_append
  obtain ⟨isFilled, -, apartClose⟩ := closing.of_append
  obtain ⟨aliases, lowers, standIn, declared⟩ := inner.lowers closed
  have lowersBlock : Lowers [] (first :: (named ++ brace :: (run ++ [close]))) aliases :=
    Lowers.block isKeyword isWord isNamed isBrace isClose (lowers [.scope])
  have joined : first :: (named ++ brace :: (run ++ close :: more)) =
      first :: (named ++ brace :: (run ++ [close])) ++ more := by simp
  refine ⟨aliases ++ further, joined ▸ lowersBlock.append lifts.lowers,
    joined ▸ (standIn.mono fun lexeme inRun => by simp [inRun]).append lifts.standIn,
    agree_block inner declared ?_ ?_ lifts.agree⟩
  · intro taken member
    have inFront := tree.scopes_behind standIn (fun lexeme inRun other inMore =>
      apartInner lexeme inRun other (by simp [inMore])) taken member
    obtain ⟨lexeme, inRun, isStart⟩ := standIn taken member
    have behindFirst := apartFirst first List.mem_cons_self lexeme (by simp [inRun])
    have toClose := apartInner lexeme inRun close (by simp)
    have filled := isFilled.filled close (List.mem_singleton_self close)
    rw [isStart] at behindFirst toClose
    exact ⟨by omega, by omega, inFront⟩
  · intro taken member
    obtain ⟨lexeme, inMore, isStart⟩ := lifts.standIn taken member
    have behindFirst := apartFirst first List.mem_cons_self lexeme (by simp [inMore])
    have behindClose := apartClose close (List.mem_singleton_self close) lexeme inMore
    rw [isStart] at behindFirst behindClose
    exact ⟨by omega, behindClose.2⟩

end Lifts

theorem ProgramTree.exists_lifts {program : Program} {lexemes : List Lexeme}
    {found : List Program.Statement} (tree : ProgramTree program lexemes found)
    (closed : program.Closed) (consecutive : Consecutive lexemes) :
    ∃ aliases, Lifts program lexemes found aliases := by
  induction tree with
  | nil => exact ⟨[], .nil, List.forall_mem_nil _, fun _ _ _ => ⟨rfl, rfl⟩⟩
  | items inner tree inductionHypothesis =>
      obtain ⟨itemsClosed, restClosed⟩ := closed.of_items
      obtain ⟨further, lifts⟩ := inductionHypothesis restClosed consecutive.of_append.2.1
      exact exists_lifts_items inner tree itemsClosed consecutive lifts
  | @inScope item keyword name items rest first head inner more span body others isScope spelled
      starts innerTree tree inductionHypothesis =>
      obtain ⟨partClosed, behindClosed⟩ := List.forall_mem_cons.mp closed
      obtain ⟨itemsClosed, restClosed⟩ := Program.Closed.of_items behindClosed
      have whole : Consecutive ((first :: head) ++ (inner ++ more)) := consecutive
      have behind := whole.of_append.2.1
      obtain ⟨further, lifts⟩ := inductionHypothesis restClosed behind.of_append.2.1
      obtain ⟨aliases, lifted⟩ := exists_lifts_items innerTree tree itemsClosed behind lifts
      exact ⟨aliases, lifts_inScope isScope (partClosed item (List.mem_singleton_self item))
        spelled starts innerTree.flat whole lifted⟩
  | @block keyword isKeyword name items rest first brace close named inner more body others isWord
      isNamed isBrace isClose innerTree tree inductionHypothesis =>
      obtain ⟨itemsClosed, restClosed⟩ := List.forall_mem_cons.mp closed
      have whole : Consecutive
          ((first :: (named ++ [brace])) ++ (inner ++ ([close] ++ more))) := by
        simpa using consecutive
      obtain ⟨further, lifts⟩ :=
        inductionHypothesis restClosed whole.of_append.2.1.of_append.2.1.of_append.2.1
      exact exists_lifts_block isWord isNamed isBrace isClose innerTree tree itemsClosed whole lifts

end FactScan

theorem wellFormed_openTag : (FactScan.Statement.other [.openTag]).WellFormed := by decide

/-- A program of a file, with the open tag that lowering puts in front of a file without one. -/
def headed (path : Path) (source : List Char) (program : FactScan.Program) : FactScan.Program :=
  if Dialect.startsInCode path source then .item ⟨.other [.openTag], wellFormed_openTag⟩ :: program
  else program

theorem symbols_headed (path : Path) (source : List Char) (program : FactScan.Program) :
    (headed path source program).symbols = program.symbols := by
  unfold headed
  split <;> rfl

/-- A file that is a program by its lexemes. Its source lexes as well once lowering has replaced
tags and element names, and its constants and aliases end where lowering expects it. -/
structure ProgramFile (content : List UInt8) (path : Path) where
  program : FactScan.Program
  lexemes : List Lexeme
  lexed : FactScan.lexFile path (Text.decode content) = .ok lexemes
  spelled : lexemes.map Lexeme.token = program.tokens
  prepared : List Lexeme
  relexed : Lexeme.lex .html (Dialect.prepared path (Text.decode content)) = .ok prepared
  closed : (headed path (Text.decode content) program).Closed

/-- A full parser that accepts the lowered source and gives the outline of the program. -/
def ProgramFile.ReadBy {content : List UInt8} {path : Path} (file : ProgramFile content path)
    (outline : Program.Outliner) : Prop :=
  ∃ statements, outline (Dialect.lower path (Text.decode content)).source = some statements ∧
    FactScan.ProgramTree (headed path (Text.decode content) file.program) file.prepared statements

/-- Lowering takes out of a program what the reference parser needs to find its aliases again. -/
theorem collect_perm_symbols {path : Path} {source : List Char} {program : FactScan.Program}
    {lexemes : List Lexeme} {statements : List Program.Statement}
    (relexed : Lexeme.lex .html (Dialect.prepared path source) = .ok lexemes)
    (closed : program.Closed) (tree : FactScan.ProgramTree program lexemes statements) :
    program.symbols.Perm (Reference.collect statements (Dialect.lower path source).aliases) := by
  have lexes : Lexeme.Lexes .html 0 (Dialect.prepared path source) lexemes :=
    Lexeme.lexes_of_lexFrom relexed
  have consecutive : Consecutive lexemes :=
    ⟨fun lexeme member => (lexes.bounds lexeme member).2, lexes.ascending⟩
  obtain ⟨aliases, lowers, -, agree⟩ := tree.exists_lifts closed consecutive
  obtain ⟨next, -, lifted⟩ := lowers none {} ⟨rfl, rfl, rfl, rfl, rfl⟩ []
  have taken : (Dialect.lower path source).aliases = aliases := by
    simp only [Dialect.lower, relexed]
    rw [List.append_nil] at lifted
    refine lifted.trans ?_
    simp [Dialect.removal]
  obtain ⟨declared, inScopes⟩ := agree none none rfl
  have lookup : ∀ found : TypeAlias, aliasIn (scopesOfAll statements) none found =
      ⟨.typeAlias, Name.qualify (Reference.scopeAt (scopesOfAll statements) found.offset)
        (.ofList found.name)⟩ := by
    intro found
    rw [Reference.scopeAt_eq_foldl]
    rfl
  have whole : program.symbols = FactScan.declaredBy none program := rfl
  have parted := List.filter_append_perm (fun symbol : Symbol => decide (symbol.kind ≠ .typeAlias))
    (FactScan.declaredBy none program)
  rw [Reference.collect, taken, ← funext lookup, declared, inScopes, whole]
  simpa using parted.symm

/-- On the file of a program that a full parser reads as such, both parsers succeed, and the fact
scan finds what the reference parser finds and nothing else. -/
theorem parse_programFile {content : List UInt8} {path : Path} (file : ProgramFile content path)
    {outline : Program.Outliner} (isRead : file.ReadBy outline) :
    ∃ found facts, Reference.parse outline content path = .ok found ∧
      FactScan.parse content path = .ok facts ∧ facts.Perm found := by
  obtain ⟨statements, outlined, tree⟩ := isRead
  have perm := collect_perm_symbols file.relexed file.closed tree
  rw [symbols_headed] at perm
  refine ⟨_, _, ?_, FactScan.parse_of_scan file.lexed
    (FactScan.scan_tokens file.program file.spelled), perm.map _⟩
  simp only [Reference.parse, Reference.symbols, outlined]

theorem eq_ok_of_toOption {ε α : Type} {outcome : Except ε α} {value : α}
    (isValue : outcome.toOption = some value) : outcome = .ok value := by
  cases outcome with
  | error fault => cases isValue
  | ok other =>
      cases isValue
      rfl

def mixedAlias : FactScan.Item :=
  ⟨.typeAlias "type".toList ['T'] [.punct '=', .ident "int".toList], by decide⟩

def mixedCondition : FactScan.Item :=
  ⟨.other [.ident ['i', 'f'], .punct '(', .varName, .punct ')', .punct '{', .punct '}'], by decide⟩

def mixedClass : FactScan.Item :=
  ⟨.classLike ["final".toList] "class".toList ['A'] [.ident "extends".toList, .ident ['B']] [],
    by decide⟩

def mixedScope (name : List Char) : FactScan.Item := ⟨.inScope "namespace".toList name, rfl⟩

def mixedProgram : FactScan.Program :=
  .item ⟨.other [.openTag], wellFormed_openTag⟩ :: .item (mixedScope ['N']) ::
    .item mixedAlias :: .item mixedCondition :: .item (mixedScope ['M']) :: .item mixedClass :: []

/-- The content `<?php namespace N;type T=int;if($x){}namespace M;final class A extends B{}`. -/
def mixedContent : List UInt8 := [
  60, 63, 112, 104, 112, 32, 110, 97, 109, 101, 115, 112, 97, 99, 101, 32, 78, 59, 116, 121, 112,
  101, 32, 84, 61, 105, 110, 116, 59, 105, 102, 40, 36, 120, 41, 123, 125, 110, 97, 109, 101, 115,
  112, 97, 99, 101, 32, 77, 59, 102, 105, 110, 97, 108, 32, 99, 108, 97, 115, 115, 32, 65, 32, 101,
  120, 116, 101, 110, 100, 115, 32, 66, 123, 125]

def mixedLexemes : List Lexeme := [
  ⟨.openTag, 0, 5⟩, ⟨.ident "namespace".toList, 6, 15⟩, ⟨.ident ['N'], 16, 17⟩,
  ⟨.punct ';', 17, 18⟩, ⟨.ident "type".toList, 18, 22⟩, ⟨.ident ['T'], 23, 24⟩,
  ⟨.punct '=', 24, 25⟩, ⟨.ident "int".toList, 25, 28⟩, ⟨.punct ';', 28, 29⟩,
  ⟨.ident ['i', 'f'], 29, 31⟩, ⟨.punct '(', 31, 32⟩, ⟨.varName, 32, 34⟩, ⟨.punct ')', 34, 35⟩,
  ⟨.punct '{', 35, 36⟩, ⟨.punct '}', 36, 37⟩, ⟨.ident "namespace".toList, 37, 46⟩,
  ⟨.ident ['M'], 47, 48⟩, ⟨.punct ';', 48, 49⟩, ⟨.ident "final".toList, 49, 54⟩,
  ⟨.ident "class".toList, 55, 60⟩, ⟨.ident ['A'], 61, 62⟩, ⟨.ident "extends".toList, 63, 70⟩,
  ⟨.ident ['B'], 71, 72⟩, ⟨.punct '{', 72, 73⟩, ⟨.punct '}', 73, 74⟩]

def mixedStatements : List Program.Statement := [
  .other ⟨0, 5⟩,
  .scope ⟨6, 37⟩ (some "N") false [.other ⟨29, 37⟩],
  .scope ⟨37, 74⟩ (some "M") false [.declaration ⟨49, 74⟩ .classLike ["A"]]]

theorem tree_mixedProgram :
    FactScan.ProgramTree mixedProgram mixedLexemes mixedStatements := by
  have inert : ∀ span, ∀ statement ∈ [Program.Statement.other span], statement.Inert :=
    fun _ => List.forall_mem_singleton.mpr trivial
  have tag : FactScan.ItemsTree [⟨.other [.openTag], wellFormed_openTag⟩] (mixedLexemes.take 1)
      [.other ⟨0, 5⟩] :=
    @FactScan.ItemsTree.cons ⟨.other [.openTag], wellFormed_openTag⟩ [] (mixedLexemes.take 1) []
      [.other ⟨0, 5⟩] [] rfl (.other (inert _)) .nil
  have inN : FactScan.ItemsTree [mixedAlias, mixedCondition] ((mixedLexemes.drop 4).take 11)
      [.other ⟨29, 37⟩] :=
    @FactScan.ItemsTree.cons mixedAlias _ ((mixedLexemes.drop 4).take 5) _ [] _ rfl .typeAlias
      (@FactScan.ItemsTree.cons mixedCondition _ ((mixedLexemes.drop 9).take 6) _ _ _ rfl
        (.other (inert _)) .nil)
  have inM : FactScan.ItemsTree [mixedClass] (mixedLexemes.drop 18)
      [.declaration ⟨49, 74⟩ .classLike ["A"]] :=
    @FactScan.ItemsTree.cons mixedClass _ (mixedLexemes.drop 18) _ _ _ rfl .classLike .nil
  exact @FactScan.ProgramTree.items _ _ _ _ _ _ tag
    (@FactScan.ProgramTree.inScope (mixedScope ['N']) _ _ _ _ _
      ((mixedLexemes.drop 2).take 2) _ _ ⟨6, 37⟩ _ _ rfl rfl rfl inN
      (@FactScan.ProgramTree.inScope (mixedScope ['M']) _ _ _ _ _
        ((mixedLexemes.drop 16).take 2) _ _ ⟨37, 74⟩ _ _ rfl rfl rfl inM .nil))

theorem parse_mixedContent :
    ∃ found facts, Reference.parse Program.outline mixedContent ⟨"a.php"⟩ = .ok found ∧
      FactScan.parse mixedContent ⟨"a.php"⟩ = .ok facts ∧ facts.Perm found := by
  have lexed : FactScan.lexFile ⟨"a.php"⟩ (Text.decode mixedContent) = .ok mixedLexemes :=
    eq_ok_of_toOption (by decide +kernel)
  have relexed : Lexeme.lex .html (Dialect.prepared ⟨"a.php"⟩ (Text.decode mixedContent)) =
      .ok mixedLexemes :=
    eq_ok_of_toOption (by decide +kernel)
  have same : headed ⟨"a.php"⟩ (Text.decode mixedContent) mixedProgram = mixedProgram :=
    if_neg (by decide +kernel)
  have closed : mixedProgram.Closed := by decide +kernel
  have outlined : Program.outline
      (Dialect.lower ⟨"a.php"⟩ (Text.decode mixedContent)).source = some mixedStatements := by
    decide +kernel
  exact parse_programFile
    ⟨mixedProgram, mixedLexemes, lexed, by decide, mixedLexemes, relexed, same ▸ closed⟩
    ⟨mixedStatements, outlined, same ▸ tree_mixedProgram⟩

/-- The content `<?php goto x; x: class A {}`. -/
def labelledClass : List UInt8 := [
  60, 63, 112, 104, 112, 32, 103, 111, 116, 111, 32, 120, 59, 32, 120, 58, 32, 99, 108, 97, 115,
  115, 32, 65, 32, 123, 125]

def labelledStatements : List Program.Statement :=
  [.other ⟨0, 5⟩, .other ⟨6, 13⟩, .other ⟨14, 16⟩, .declaration ⟨17, 27⟩ .classLike ["A"]]

/-- The colon of a label is not among the tokens behind which the fact scan expects a statement, so
it misses the class that every full parser has in the outline. -/
theorem parse_labelledClass :
    (∀ outline : Program.Outliner, outline (Text.decode labelledClass) = some labelledStatements →
      Reference.parse outline labelledClass ⟨"a.php"⟩ =
        .ok [⟨⟨.classLike, "A"⟩, ⟨"a.php"⟩⟩]) ∧
      Program.outline (Text.decode labelledClass) = some labelledStatements ∧
      FactScan.parse labelledClass ⟨"a.php"⟩ = .ok [] := by
  have lowered : Dialect.lower ⟨"a.php"⟩ (Text.decode labelledClass) =
      ⟨Text.decode labelledClass, []⟩ := by
    decide +kernel
  refine ⟨fun outline outlined => ?_, by decide +kernel, eq_ok_of_toOption (by decide +kernel)⟩
  simp only [Reference.parse, Reference.symbols, lowered, outlined]
  rfl

end AutoloadIndex
