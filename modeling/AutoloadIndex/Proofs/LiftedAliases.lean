import AutoloadIndex.Proofs.AliasAgreement

set_option autoImplicit false

/-!
What lowering takes out of a program of the declaration grammar: its type aliases, in order, each
with the offset of its keyword. Lowering goes from statement to statement as the scan does, where
the statements that one of them jumps over close properly.
-/

namespace AutoloadIndex.FactScan

open Dialect (TypeAlias removal)
open Lexeme (nameAhead punctAhead)

namespace Statement

/-- Constants and aliases end with a semicolon outside of brackets, as lowering expects it, and no
other statement starts in them. -/
def Closed : Statement → Prop
  | constants keyword first others => IsBody (.ident keyword)
    (first.tokens ++ others.flatMap fun constant => .punct ',' :: constant.tokens)
  | typeAlias keyword name definition => IsBody (.ident keyword) (.ident name :: definition)
  | classLike .. | enumeration .. | function .. | define .. | inScope .. | other _ => True

instance : (statement : Statement) → Decidable statement.Closed
  | constants .. | typeAlias .. => inferInstanceAs (Decidable (IsBody _ _))
  | classLike .. | enumeration .. | function .. | define .. | inScope .. | other _ =>
    inferInstanceAs (Decidable True)

def aliases (lexemes : List Lexeme) : Statement → List TypeAlias
  | typeAlias _ name _ => lexemes.head?.toList.map fun keyword => ⟨name, keyword.start⟩
  | _ => []

end Statement

/-- Between statements, lowering goes over lexemes to such a place again and takes out aliases on
the way. -/
def Lowers (outer : List Brace) (lexemes : List Lexeme) (found : List TypeAlias) : Prop :=
  ∀ scope state, AtStatement outer scope state → ∀ more, ∃ next, AtStatement outer scope next ∧
    (removal state.nesting (state.previous.map Lexeme.token) 0 (lexemes ++ more)).aliases =
      found ++ (removal next.nesting (next.previous.map Lexeme.token) 0 more).aliases

namespace Lowers

variable {outer : List Brace} {lexemes : List Lexeme} {word name : List Char}

theorem nil : Lowers outer [] [] := fun _ state between _ => ⟨state, between, rfl⟩

theorem append {first second : List Lexeme} {found later : List TypeAlias}
    (front : Lowers outer first found) (back : Lowers outer second later) :
    Lowers outer (first ++ second) (found ++ later) := by
  intro scope state between more
  obtain ⟨next, nextBetween, isFirst⟩ := front scope state between (second ++ more)
  obtain ⟨last, lastBetween, isSecond⟩ := back scope next nextBetween more
  refine ⟨last, lastBetween, ?_⟩
  rw [List.append_assoc, isFirst, isSecond, List.append_assoc]

theorem run (isRun : (Statement.other (lexemes.map Lexeme.token)).WellFormed) :
    Lowers outer lexemes [] := by
  obtain ⟨balanced, quiet, ends⟩ := isRun
  intro scope state between more
  refine ⟨{ state with
    nesting := ⟨outer, false⟩, previous := lexemes.getLast?.or state.previous }, ?_, ?_⟩
  · exact ⟨rfl, between.outside, between.scope, between.items,
      Reads.starts_getLast?_or ends between.starts⟩
  · have level : startsStatement none = startsStatement (state.previous.map Lexeme.token) :=
      between.starts.symm
    have nesting : state.nesting = ⟨List.replicate 0 .block ++ outer, false⟩ := between.nesting
    rw [Dialect.removal_run nesting balanced (quiet.of_starts level)]
    rfl

theorem keyword {keyword : Keyword} {first : Lexeme}
    (opens : Opens word keyword (lexemes.map Lexeme.token)) (isWord : first.token = .ident word)
    (blanks : ∀ nesting more, ∃ spans,
      Dialect.statement nesting keyword first (lexemes ++ more) = (⟨spans, []⟩, nesting, 0)) :
    Lowers outer (first :: lexemes) [] := by
  intro scope state between more
  have isKeyword : state.keyword? first.token = some keyword := by
    rw [isWord]
    exact between.keyword?_ident opens.spells
  obtain ⟨spans, isBlank⟩ := blanks state.nesting more
  have quiet := opens.quiet
  rw [← isWord] at quiet
  refine ⟨{ state with nesting := ⟨outer, false⟩, previous := lexemes.getLast?.or (some first) },
    ⟨rfl, between.outside, between.scope, between.items, opens.starts_behind first⟩, ?_⟩
  have nesting : ({ state with previous := some first } : State).nesting =
      ⟨List.replicate 0 .block ++ outer, false⟩ := between.nesting
  have behind := congrArg Dialect.Removal.aliases
    (Dialect.removal_run nesting opens.balanced quiet more)
  rw [List.cons_append, Dialect.removal_cons]
  simp only [isKeyword, isBlank]
  exact behind

theorem declaration {kind : Keyword} {first : Lexeme}
    (opens : Opens word kind (lexemes.map Lexeme.token)) (isWord : first.token = .ident word)
    (plain : kind ∉ [.haltCompiler, .namespaceScope, .typeDecl]) :
    Lowers outer (first :: lexemes) [] := by
  refine keyword opens isWord fun nesting more => ?_
  cases kind <;> first | exact absurd (by decide) plain | exact ⟨_, rfl⟩

/-- A statement that lowering or the scan jumps over. -/
theorem jump {keyword : Keyword} {first last : Lexeme} {found : Option TypeAlias}
    (spells : Keyword.ofWord? word = some keyword) (isWord : first.token = .ident word)
    (isBody : IsBody (.ident word) (lexemes.map Lexeme.token)) (isLast : last.token = .punct ';')
    (isSite : ∀ state : State, state.items = none → state.keyword? first.token = some keyword →
      ∀ more, Visit.opensStatement ⟨state, first, lexemes ++ last :: more⟩ ∧
        (Visit.aliasSite? ⟨state, first, lexemes ++ last :: more⟩).map AliasSite.lifted = found) :
    Lowers outer (first :: (lexemes ++ [last])) found.toList := by
  intro scope state between more
  have isKeyword : state.keyword? first.token = some keyword := by
    rw [isWord]
    exact between.keyword?_ident spells
  obtain ⟨opens, rfl⟩ := isSite state between.items isKeyword more
  have settled : state.nesting.pending = false := by rw [between.nesting]
  rw [← isWord] at isBody
  refine ⟨{ state with previous := some last },
    ⟨between.nesting, between.outside, between.scope, between.items, ?_⟩, ?_⟩
  · simp [isLast, startsStatement, Token.endsStatement, Token.isPunct]
  · rw [List.cons_append, List.append_assoc, List.singleton_append,
      removal_statement settled opens isLast isBody]
    rfl

theorem constants {first last : Lexeme} (spells : Keyword.ofWord? word = some .constDecl)
    (isWord : first.token = .ident word)
    (isBody : IsBody (.ident word) (lexemes.map Lexeme.token)) (isLast : last.token = .punct ';') :
    Lowers outer (first :: (lexemes ++ [last])) [] := by
  refine show Lowers outer _ (none : Option TypeAlias).toList from
    jump spells isWord isBody isLast fun state outside isKeyword more => ?_
  have isConst : Visit.keyword? ⟨state, first, lexemes ++ last :: more⟩ = some .constDecl :=
    (Visit.keyword?_eq outside).trans isKeyword
  simp [Visit.opensStatement, Visit.aliasSite?, isConst]

theorem typeAlias {first last : Lexeme} {definition : List Token}
    (spells : Keyword.ofWord? word = some .typeDecl)
    (opens : definition.head?.any fun token => token.isPunct ['=', '<'] || token.isWord "as")
    (isWord : first.token = .ident word)
    (spelled : lexemes.map Lexeme.token = .ident name :: definition)
    (isBody : IsBody (.ident word) (.ident name :: definition)) (isLast : last.token = .punct ';') :
    Lowers outer (first :: (lexemes ++ [last])) [⟨name, first.start⟩] := by
  refine show Lowers outer _ (some _ : Option TypeAlias).toList from
    jump spells isWord (spelled ▸ isBody) isLast fun state outside isKeyword more => ?_
  have isType : Visit.keyword? ⟨state, first, lexemes ++ last :: more⟩ = some .typeDecl :=
    (Visit.keyword?_eq outside).trans isKeyword
  have named : State.aliasName (lexemes ++ last :: more) = some name := by
    cases definition with
    | nil => simp at opens
    | cons next definition =>
        have ahead : (lexemes ++ last :: more).map Lexeme.token =
            .ident name :: next :: (definition ++ (last :: more).map Lexeme.token) := by
          simp [spelled]
        have isOpened : next.isPunct ['=', '<'] ∨ next.isWord "as" := by simpa using opens
        simp [State.aliasName, Lexeme.opensAlias, punctAhead, Lexeme.wordAhead, nameAhead,
          ahead_of_spelled ahead, Token.name?, isOpened]
  simp [Visit.opensStatement, Visit.aliasSite?, isType, named, AliasSite.lifted]

/-- Lowering takes the alias out of a statement that declares one, and nothing else. -/
theorem item (item : Item) (closed : item.statement.Closed)
    (spelled : lexemes.map Lexeme.token = item.tokens) :
    Lowers outer lexemes (item.statement.aliases lexemes) := by
  obtain ⟨statement, wellFormed⟩ := item
  have opens := wellFormed.opens
  cases statement with
  | classLike words word name header body =>
      obtain ⟨kind, isKind, opens⟩ := opens
      have modifier := wellFormed.1
      obtain ⟨front, back, rfl, isFront, isBack⟩ := List.map_eq_append_iff.mp spelled
      obtain ⟨first, rest, rfl, isWord, isRest⟩ := List.map_eq_cons_iff.mp isBack
      have isModifiers : Lowers outer front [] := run (isFront ▸ wellFormed_modifiers modifier)
      exact isModifiers.append (declaration (isRest ▸ opens) isWord (by grind))
  | enumeration word | function word | define word =>
      obtain ⟨first, rest, rfl, isWord, isRest⟩ := List.map_eq_cons_iff.mp spelled
      exact declaration (isRest ▸ opens) isWord (by decide)
  | typeAlias word name definition =>
      have marked := wellFormed.2.1
      obtain ⟨first, rest, rfl, isWord, isRest⟩ := List.map_eq_cons_iff.mp spelled
      obtain ⟨front, back, rfl, isFront, isBack⟩ := List.map_eq_append_iff.mp isRest
      obtain ⟨last, nothing, rfl, isLast, isNothing⟩ := List.map_eq_cons_iff.mp isBack
      cases List.map_eq_nil_iff.mp isNothing
      exact typeAlias opens.spells marked isWord isFront closed isLast
  | constants word only others =>
      obtain ⟨first, rest, rfl, isWord, isRest⟩ := List.map_eq_cons_iff.mp spelled
      obtain ⟨front, back, rfl, isFront, isBack⟩ := List.map_eq_append_iff.mp isRest
      obtain ⟨last, nothing, rfl, isLast, isNothing⟩ := List.map_eq_cons_iff.mp isBack
      cases List.map_eq_nil_iff.mp isNothing
      exact constants wellFormed isWord (isFront ▸ closed) isLast
  | inScope word name =>
      obtain ⟨first, rest, rfl, isWord, isRest⟩ := List.map_eq_cons_iff.mp spelled
      refine keyword (isRest ▸ opens) isWord fun nesting more => ?_
      have ahead : (rest ++ more).map Lexeme.token =
          .ident name :: .punct ';' :: more.map Lexeme.token := by
        simp [isRest, Statement.rest]
      exact ⟨[], by simp [Dialect.statement, Dialect.opensScope, punctAhead,
        ahead_of_spelled ahead, Token.isPunct]⟩
  | other tokens => exact run (spelled ▸ wellFormed)

theorem removal_to_brace {state : State} (pending : state.nesting = ⟨outer, true⟩)
    (starts : startsStatement (state.previous.map Lexeme.token) = false)
    {label : Option (List Char)} {named : List Lexeme}
    (isNamed : named.map Lexeme.token = (label.map Token.ident).toList) {brace : Lexeme}
    (isBrace : brace.token = .punct '{') (more : List Lexeme) :
    removal state.nesting (state.previous.map Lexeme.token) 0 (named ++ brace :: more) =
      removal ⟨.scope :: outer, false⟩ (some brace.token) 0 more := by
  have atBrace : ∀ previous : Option Lexeme,
      removal state.nesting (previous.map Lexeme.token) 0 (brace :: more) =
        removal ⟨.scope :: outer, false⟩ (some brace.token) 0 more := by
    intro previous
    have noKeyword : State.keyword? { state with previous } brace.token = none :=
      State.keyword?_of_punct isBrace
    refine (Dialect.removal_cons { state with previous } brace more).trans ?_
    rw [noKeyword]
    simp [Dialect.braced, isBrace, pending, Nesting.opened]
  cases label with
  | none =>
      cases List.map_eq_nil_iff.mp isNamed
      exact atBrace state.previous
  | some text =>
      obtain ⟨lexeme, nothing, rfl, isName, isNothing⟩ := List.map_eq_cons_iff.mp isNamed
      cases List.map_eq_nil_iff.mp isNothing
      have noKeyword : state.keyword? lexeme.token = none := by
        rw [State.keyword?_eq, starts]
        simp
      have sameNesting : Dialect.braced state.nesting lexeme.token = state.nesting := by
        simp [Dialect.braced, isName]
      have behind := Dialect.removal_cons state lexeme (brace :: more)
      rw [noKeyword, sameNesting] at behind
      exact behind.trans (atBrace (some lexeme))

theorem block (spells : Keyword.ofWord? word = some .namespaceScope) {label : Option (List Char)}
    {first brace close : Lexeme} {named inner : List Lexeme} {found : List TypeAlias}
    (isWord : first.token = .ident word)
    (isNamed : named.map Lexeme.token = (label.map Token.ident).toList)
    (isBrace : brace.token = .punct '{') (isClose : close.token = .punct '}')
    (inside : Lowers (.scope :: outer) inner found) :
    Lowers outer (first :: (named ++ brace :: (inner ++ [close]))) found := by
  intro scope state between more
  have isKeyword : state.keyword? first.token = some .namespaceScope := by
    rw [isWord]
    exact between.keyword?_ident spells
  have starts : ∀ {lexeme : Lexeme} {mark : Char}, lexeme.token = .punct mark → mark ∈ ['{', '}'] →
      startsStatement (some lexeme.token) := by
    intro lexeme mark isMark member
    simp only [List.mem_cons, List.not_mem_nil, or_false] at member
    rw [isMark]
    rcases member with rfl | rfl <;> decide
  obtain ⟨last, lastBetween, lowered⟩ := inside scope
    { state with nesting := ⟨.scope :: outer, false⟩, previous := some brace }
    ⟨rfl, between.outside, between.scope, between.items, starts isBrace (by decide)⟩ (close :: more)
  have closed : removal last.nesting (last.previous.map Lexeme.token) 0 (close :: more) =
      removal ⟨outer, false⟩ (some close.token) 0 more := by
    have noKeyword : last.keyword? close.token = none := State.keyword?_of_punct isClose
    rw [Dialect.removal_cons, noKeyword, lastBetween.nesting]
    simp [Dialect.braced, isClose, Nesting.closed]
  have opens : Dialect.opensScope (named ++ brace :: (inner ++ close :: more)) = true := by
    have ahead : (named ++ brace :: (inner ++ close :: more)).map Lexeme.token =
        (label.map Token.ident).toList ++
          .punct '{' :: (inner ++ close :: more).map Lexeme.token := by
      simp [isNamed, isBrace]
    cases label <;> simp [Dialect.opensScope, nameAhead, punctAhead, ahead_of_spelled ahead,
      Token.name?, Token.isPunct]
  have within : startsStatement (some first.token) = false := by
    rw [isWord]
    exact startsStatement_keyword spells
  have toBrace := removal_to_brace
    (show ({ state with nesting := state.nesting.expectScope, previous := some first } :
      State).nesting = ⟨outer, true⟩ by rw [between.nesting]; rfl)
    within isNamed isBrace (inner ++ close :: more)
  refine ⟨{ last with nesting := ⟨outer, false⟩, previous := some close },
    ⟨rfl, between.outside, lastBetween.scope, lastBetween.items, starts isClose (by decide)⟩, ?_⟩
  simp only [List.cons_append, List.append_assoc, List.nil_append]
  rw [Dialect.removal_cons]
  simp only [isKeyword, Dialect.statement, opens, if_true]
  rw [closed] at lowered
  exact (congrArg Dialect.Removal.aliases toBrace).trans lowered

end Lowers

end AutoloadIndex.FactScan
