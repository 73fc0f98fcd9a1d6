import AutoloadIndex.Proofs.GrammarScan
import AutoloadIndex.Proofs.ScopeLookup

set_option autoImplicit false

/-!
The outline that a full parser gives for a program of the declaration grammar. Each declaration is a
statement under the same names, constants of one declaration are together, and a namespace holds
what stands in it, from the start of its keyword to the end of its braces. Type aliases have no
statement, since lowering takes them out. What declares nothing may be any statements that declare
nothing.
-/

namespace AutoloadIndex

namespace Program.Statement

/-- A statement that declares nothing. -/
def Inert : Statement → Prop
  | .call _ function literal => Reference.definedName function literal = none
  | .other _ => True
  | .scope .. | .declaration .. => False

end Program.Statement

namespace FactScan

inductive ReadAs : Statement → List Program.Statement → Prop
  | classLike {modifiers : List (List Char)} {keyword name : List Char} {header body : List Token}
      {span : Program.Span} : ReadAs (.classLike modifiers keyword name header body)
        [.declaration span .classLike [.ofList name]]
  | enumeration {keyword name : List Char} {header body : List Token} {span : Program.Span} :
      ReadAs (.enumeration keyword name header body) [.declaration span .classLike [.ofList name]]
  | function {keyword name : List Char} {byReference : Bool} {mark : Char}
      {header body : List Token} {span : Program.Span} :
      ReadAs (.function keyword byReference name mark header body)
        [.declaration span .function [.ofList name]]
  | constants {keyword : List Char} {first : Constant} {others : List Constant}
      {span : Program.Span} : ReadAs (.constants keyword first others)
        [.declaration span .constant ((first :: others).map fun constant => .ofList constant.name)]
  | define {keyword literal : List Char} {arguments : Option (List Token)} {span : Program.Span} :
      ReadAs (.define keyword literal arguments)
        [.call span (.ofList keyword) (some (.ofList literal))]
  | typeAlias {keyword name : List Char} {definition : List Token} :
      ReadAs (.typeAlias keyword name definition) []
  | other {run : List Token} {found : List Program.Statement} :
      (∀ statement ∈ found, statement.Inert) → ReadAs (.other run) found

inductive ItemsTree : List Item → List Lexeme → List Program.Statement → Prop
  | nil : ItemsTree [] [] []
  | cons {item : Item} {rest : List Item} {run more : List Lexeme}
      {found others : List Program.Statement} : run.map Lexeme.token = item.tokens →
      ReadAs item.statement found → ItemsTree rest more others →
      ItemsTree (item :: rest) (run ++ more) (found ++ others)

inductive ProgramTree : Program → List Lexeme → List Program.Statement → Prop
  | nil : ProgramTree [] [] []
  | items {items : List Item} {rest : Program} {run more : List Lexeme}
      {found others : List Program.Statement} : ItemsTree items run found →
      ProgramTree rest more others →
      ProgramTree (items.map Part.item ++ rest) (run ++ more) (found ++ others)
  /-- A namespace without braces. It stays in effect behind its last statement. -/
  | inScope {item : Item} {keyword name : List Char} {items : List Item} {rest : Program}
      {first : Lexeme} {head inner more : List Lexeme} {span : Program.Span}
      {body others : List Program.Statement} : item.statement = .inScope keyword name →
      (first :: head).map Lexeme.token = item.tokens → span.start = first.start →
      ItemsTree items inner body → ProgramTree rest more others →
      ProgramTree (.item item :: (items.map Part.item ++ rest)) (first :: (head ++ (inner ++ more)))
        (.scope span (some (.ofList name)) false body :: others)
  | block {keyword : List Char} {isKeyword : Keyword.ofWord? keyword = some .namespaceScope}
      {name : Option (List Char)} {items : List Item} {rest : Program}
      {first brace close : Lexeme} {named inner more : List Lexeme}
      {body others : List Program.Statement} : first.token = .ident keyword →
      named.map Lexeme.token = (name.map Token.ident).toList → brace.token = .punct '{' →
      close.token = .punct '}' → ItemsTree items inner body → ProgramTree rest more others →
      ProgramTree (.block keyword isKeyword name items :: rest)
        (first :: (named ++ brace :: (inner ++ close :: more)))
        (.scope ⟨first.start, close.stop⟩ (name.map String.ofList) true body :: others)

def declaredBy (scope : Option String) (program : Program) : List Symbol :=
  inTurn Part.symbols Part.scopeAfter scope program

end FactScan

namespace Reference

open Program (Statement)

/-- The reference parser has no namespace where the fact scan has an empty one. -/
theorem qualify_scopeName (name : Option String) :
    Name.qualify (scopeName name) = Name.qualify (name.map Name.bare) := by
  cases name with
  | none => rfl
  | some name =>
      simp only [scopeName, Option.map_some]
      generalize Name.bare name = scope
      by_cases empty : scope = ""
      · subst empty
        rfl
      · simp [Option.filter, empty]

theorem isDefine_of_ofWord? {word : List Char}
    (spells : Keyword.ofWord? word = some .defineCall) : isDefine (.ofList word) = true := by
  have lower : ∀ text : String, Keyword.ofLower? text = some .defineCall → text = "define" := by
    intro text found
    unfold Keyword.ofLower? at found
    split at found <;> simp_all
  have spelled := lower _ spells
  simp only [isDefine, Text.sameIgnoringCase, String.toList_ofList, beq_iff_eq]
  rw [← String.toList_ofList (l := Text.lowerAscii (Text.trimStart '\\' word)), spelled]
  rfl

theorem symbolsOfAll_append (scope : Option String) (first second : List Statement) :
    symbolsOfAll scope (first ++ second) =
      ((symbolsOfAll scope first).1 ++ (symbolsOfAll (symbolsOfAll scope first).2 second).1,
        (symbolsOfAll (symbolsOfAll scope first).2 second).2) := by
  induction first generalizing scope with
  | nil => rfl
  | cons statement rest inductionHypothesis =>
      simp only [List.cons_append, symbolsOfAll, inductionHypothesis, List.append_assoc]

theorem scopesOfAll_append (first second : List Statement) :
    scopesOfAll (first ++ second) = scopesOfAll first ++ scopesOfAll second := by
  induction first with
  | nil => rfl
  | cons statement rest inductionHypothesis =>
      simp only [List.cons_append, scopesOfAll, inductionHypothesis, List.append_assoc]

theorem symbolsOfAll_inert {found : List Statement} (inert : ∀ statement ∈ found, statement.Inert)
    (scope : Option String) :
    symbolsOfAll scope found = ([], scope) ∧
      ∀ statement ∈ found, statement.isNamespace = false := by
  induction found with
  | nil => exact ⟨rfl, List.forall_mem_nil _⟩
  | cons statement rest inductionHypothesis =>
      obtain ⟨isInert, restInert⟩ := List.forall_mem_cons.mp inert
      obtain ⟨nothing, flat⟩ := inductionHypothesis restInert
      rw [List.forall_mem_cons]
      cases statement with
      | scope => cases isInert
      | declaration => cases isInert
      | call span function literal =>
          have noName : definedName function literal = none := isInert
          exact ⟨by simp [symbolsOfAll, symbolsOf, noName, nothing], rfl, flat⟩
      | other => exact ⟨by simp [symbolsOfAll, symbolsOf, nothing], rfl, flat⟩

end Reference

namespace FactScan

open Reference (symbolsOfAll)

/-- The reference parser collects what a statement declares, unless that is an alias. -/
theorem ReadAs.symbols {statement : Statement} {found : List Program.Statement}
    (reads : ReadAs statement found) (wellFormed : statement.WellFormed)
    {scope other : Option String} (same : Name.qualify scope = Name.qualify other) :
    symbolsOfAll scope found = ((statement.symbols other).filter (·.kind ≠ .typeAlias), scope) := by
  cases reads with
  | define =>
      have isDefine := Reference.isDefine_of_ofWord? wellFormed.1
      simp only [symbolsOfAll, Reference.symbolsOf, Reference.definedName, isDefine, if_true,
        Option.bind_some, String.toList_ofList, Statement.symbols, List.append_nil]
      cases Literal.value _ <;> simp
  | other inert =>
      rw [(Reference.symbolsOfAll_inert inert scope).1]
      rfl
  | @constants keyword first others =>
      have kept : (Statement.constants keyword first others).symbols other =
          ((Statement.constants keyword first others).symbols other).filter
            (·.kind ≠ .typeAlias) := by
        refine (List.filter_eq_self.mpr ?_).symm
        simp [Statement.symbols]
      rw [← kept]
      simp [symbolsOfAll, Reference.symbolsOf, Statement.symbols, same]
  | _ => simp [symbolsOfAll, Reference.symbolsOf, Statement.symbols, same]

theorem ReadAs.flat {statement : Statement} {found : List Program.Statement}
    (reads : ReadAs statement found) : ∀ statement ∈ found, statement.isNamespace = false := by
  cases reads with
  | other inert => exact (Reference.symbolsOfAll_inert inert none).2
  | typeAlias => exact List.forall_mem_nil _
  | _ => exact List.forall_mem_singleton.mpr rfl

theorem ReadAs.scopeAfter {statement : Statement} {found : List Program.Statement}
    (reads : ReadAs statement found) (scope : Option String) :
    statement.scopeAfter scope = scope := by
  cases reads <;> rfl

namespace ItemsTree

variable {items : List Item} {lexemes : List Lexeme} {found : List Program.Statement}

theorem flat (tree : ItemsTree items lexemes found) :
    ∀ statement ∈ found, statement.isNamespace = false := by
  induction tree with
  | nil => exact List.forall_mem_nil _
  | cons _ reads _ inductionHypothesis =>
      exact List.forall_mem_append.mpr ⟨reads.flat, inductionHypothesis⟩

theorem symbols (tree : ItemsTree items lexemes found) {scope other : Option String}
    (same : Name.qualify scope = Name.qualify other) :
    (symbolsOfAll scope found).1 =
      (inTurn Item.symbols Item.scopeAfter other items).filter (·.kind ≠ .typeAlias) := by
  induction tree with
  | nil => rfl
  | @cons item rest run more found others _ reads _ inductionHypothesis =>
      rw [Reference.symbolsOfAll_append, reads.symbols item.wellFormed same, inductionHypothesis,
        inTurn, Item.scopeAfter, reads.scopeAfter, List.filter_append]
      rfl

theorem declaredBy_append (tree : ItemsTree items lexemes found) (scope : Option String)
    (rest : Program) :
    declaredBy scope (items.map Part.item ++ rest) =
      inTurn Item.symbols Item.scopeAfter scope items ++ declaredBy scope rest := by
  induction tree with
  | nil => rfl
  | @cons item others run more found _ _ reads _ inductionHypothesis =>
      have keeps : item.scopeAfter scope = scope := reads.scopeAfter scope
      simp only [declaredBy, List.map_cons, List.cons_append, inTurn, Part.symbols,
        Part.scopeAfter, keeps, List.append_assoc] at inductionHypothesis ⊢
      rw [inductionHypothesis]

end ItemsTree

theorem ProgramTree.scopes {program : Program} {lexemes : List Lexeme}
    {found : List Program.Statement} (tree : ProgramTree program lexemes found) :
    ∀ scope ∈ Reference.scopesOfAll found, ∃ lexeme ∈ lexemes, lexeme.start = scope.span.start := by
  induction tree with
  | nil => exact List.forall_mem_nil _
  | items inner _ inductionHypothesis =>
      rw [Reference.scopesOfAll_append, Reference.scopesOfAll_flat inner.flat]
      intro scope member
      obtain ⟨lexeme, inMore, isStart⟩ := inductionHypothesis scope member
      exact ⟨lexeme, List.mem_append_right _ inMore, isStart⟩
  | @inScope _ _ _ _ _ first _ _ _ _ _ _ _ _ starts inner _ inductionHypothesis =>
      simp only [Reference.scopesOfAll, Reference.scopesOf, Reference.scopesOfAll_flat inner.flat,
        List.cons_append, List.nil_append, List.forall_mem_cons]
      refine ⟨⟨first, List.mem_cons_self, starts.symm⟩, ?_⟩
      intro scope member
      obtain ⟨lexeme, inMore, isStart⟩ := inductionHypothesis scope member
      exact ⟨lexeme, by simp [inMore], isStart⟩
  | @block _ _ _ _ _ first _ _ _ _ _ _ _ _ _ _ _ inner _ inductionHypothesis =>
      simp only [Reference.scopesOfAll, Reference.scopesOf, Reference.scopesOfAll_flat inner.flat,
        List.cons_append, List.nil_append, List.forall_mem_cons]
      refine ⟨⟨first, List.mem_cons_self, rfl⟩, ?_⟩
      intro scope member
      obtain ⟨lexeme, inMore, isStart⟩ := inductionHypothesis scope member
      exact ⟨lexeme, by simp [inMore], isStart⟩

end FactScan

end AutoloadIndex
