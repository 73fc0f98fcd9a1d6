import AutoloadIndex.Proofs.DeclarationGrammar

set_option autoImplicit false

/-!
The scan of a program of the declaration grammar. Between statements the scan is outside all blocks
and outside constant declarations, and the next token can start a statement. Every statement leads
from such a state to such a state and adds what it declares.
-/

namespace AutoloadIndex.FactScan

open Lexeme (ahead nameAhead punctAhead wordAhead)

namespace Brackets

theorem Closes.append {brackets : Brackets} {depth outer : Nat} {first second : List Token}
    (front : brackets.Closes depth first) (back : brackets.Closes outer second) :
    brackets.Closes (depth + outer) (first ++ second) := by
  induction first generalizing depth with
  | nil =>
      cases front
      rwa [Nat.zero_add]
  | cons token rest inductionHypothesis =>
      obtain ⟨allowed, later⟩ := front
      have stepped : brackets.step (depth + outer) token = brackets.step depth token + outer := by
        unfold step
        grind
      refine ⟨by grind, ?_⟩
      rw [stepped]
      exact inductionHypothesis later

end Brackets

theorem balanced_of_flat {tokens : List Token} (flat : Flat tokens) : Balanced tokens := by
  induction tokens with
  | nil => rfl
  | cons token rest inductionHypothesis =>
      have neither := flat token (by simp)
      have later := inductionHypothesis fun other membership =>
        flat other (List.mem_cons_of_mem token membership)
      cases token <;> simp_all [Balanced, Brackets.Closes, Brackets.step, Brackets.braces,
        Token.isPunct]

theorem Balanced.append {first second : List Token} (front : Balanced first)
    (back : Balanced second) : Balanced (first ++ second) :=
  Brackets.Closes.append front back

theorem balanced_braced {body : List Token} (balanced : Balanced body) :
    Balanced (braced body) := by
  refine ⟨.inl rfl, ?_⟩
  have closing : Brackets.braces.Closes 1 [.punct '}'] := by decide
  exact Brackets.Closes.append balanced closing

theorem Quiet.of_starts {first second : Option Token} {tokens : List Token}
    (level : startsStatement first = startsStatement second) (quiet : Quiet first tokens) :
    Quiet second tokens := by
  cases tokens with
  | nil => trivial
  | cons token rest =>
      refine ⟨?_, quiet.2⟩
      rw [staysQuiet, ← level]
      exact quiet.1

theorem outside_of_no_keyword {tokens : List Token}
    (noKeyword : ∀ token ∈ tokens, token.name?.bind Keyword.ofWord? = none)
    (previous : Option Token) (depth : Nat) :
    Brackets.braces.Outside staysQuiet previous depth tokens := by
  induction tokens generalizing previous depth with
  | nil => trivial
  | cons token rest inductionHypothesis =>
      rw [List.forall_mem_cons] at noKeyword
      refine ⟨?_, inductionHypothesis noKeyword.2 _ _⟩
      simp [staysQuiet, noKeyword.1]

theorem ofWord?_of_isModifier {word : List Char} (modifier : (Token.ident word).isModifier) :
    Keyword.ofWord? word = none := by
  simp only [Token.isModifier, Token.isWord, Text.sameIgnoringCase, Bool.or_eq_true,
    beq_iff_eq] at modifier
  have trimmed : Text.trimStart '\\' word = word := by
    cases word with
    | nil => rfl
    | cons c rest =>
        have notSeparator : c ≠ '\\' := by
          rintro rfl
          simp [Text.lowerAscii] at modifier
        simp [Text.trimStart, notSeparator]
  rw [Keyword.ofWord?, trimmed]
  rcases modifier with (lower | lower) | lower <;> rw [lower] <;> decide

theorem startsStatement_keyword {word : List Char} {keyword : Keyword}
    (spells : Keyword.ofWord? word = some keyword) :
    startsStatement (some (.ident word)) = false := by
  have noModifier : (Token.ident word).isModifier = false := by
    rw [Bool.eq_false_iff]
    intro modifier
    rw [ofWord?_of_isModifier modifier] at spells
    exact absurd spells (by simp)
  simp [startsStatement, Token.endsStatement, Token.isPunct, noModifier]

namespace State

theorem keyword?_eq (state : State) (token : Token) :
    state.keyword? token =
      if state.nesting.isTopLevel && startsStatement (state.previous.map Lexeme.token) then
        token.name?.bind Keyword.ofWord?
      else none := by
  unfold keyword?
  cases token.name? <;> cases state.nesting.isTopLevel <;>
    cases startsStatement (state.previous.map Lexeme.token) <;> rfl

theorem keyword?_of_punct {state : State} {token : Token} {mark : Char}
    (isPunct : token = .punct mark) : state.keyword? token = none := by
  rw [isPunct]
  rfl

theorem keyword?_of_block {state : State} (token : Token)
    (inside : .block ∈ state.nesting.braces) : state.keyword? token = none := by
  have below : state.nesting.isTopLevel = false := by
    unfold Nesting.isTopLevel
    rw [List.all_eq_false]
    exact ⟨.block, inside, by decide⟩
  rw [keyword?_eq, below]
  rfl

theorem keyword?_of_staysQuiet {state : State} {token : Token}
    (quiet : staysQuiet (state.previous.map Lexeme.token) token) :
    state.keyword? token = none := by
  rw [keyword?_eq]
  split
  case isTrue both => simp_all [staysQuiet]
  case isFalse => rfl

theorem nest_of_blocks {state : State} {depth : Nat} {outer : List Brace} {lexeme : Lexeme}
    (nesting : state.nesting = ⟨List.replicate depth .block ++ outer, false⟩)
    (allowed : lexeme.token.isPunct ['{'] ∨ ¬ lexeme.token.isPunct ['}'] ∨ 0 < depth) :
    state.nest lexeme = .ok { state with nesting :=
      ⟨List.replicate (Brackets.braces.step depth lexeme.token) .block ++ outer, false⟩ } := by
  unfold nest Brackets.step Brackets.braces
  by_cases opening : lexeme.token = .punct '{'
  · rw [if_pos opening, opening]
    simp [Token.isPunct, Nesting.opened, nesting, List.replicate_succ]
  · rw [if_neg opening]
    by_cases closing : lexeme.token = .punct '}'
    · rw [if_pos closing]
      rw [closing] at allowed
      cases depth with
      | zero => simp [Token.isPunct] at allowed
      | succ depth => simp [closing, Token.isPunct, Nesting.close?, nesting, List.replicate_succ]
    · rw [if_neg closing]
      have neither : ∀ mark, lexeme.token ≠ .punct mark → lexeme.token.isPunct [mark] = false := by
        intro mark differ
        cases token : lexeme.token <;> simp_all [Token.isPunct]
      rw [neither _ opening, neither _ closing]
      simp [← nesting]

end State

theorem scan_step {state next : State} {lexeme : Lexeme} (rest : List Lexeme)
    (items : state.items = none) (noKeyword : state.keyword? lexeme.token = none)
    (nested : state.nest lexeme = .ok next) :
    scan state (lexeme :: rest) = scan { next with previous := some lexeme } rest := by
  rw [scan, items]
  simp only [noKeyword, nested]

/-- A run without keywords in front of statements leaves the scan where it was. -/
theorem scan_run {outer : List Brace} {run : List Lexeme} {depth : Nat} {state : State}
    (nesting : state.nesting = ⟨List.replicate depth .block ++ outer, false⟩)
    (items : state.items = none)
    (closes : Brackets.braces.Closes depth (run.map Lexeme.token))
    (quiet : Brackets.braces.Outside staysQuiet (state.previous.map Lexeme.token) depth
      (run.map Lexeme.token))
    (more : List Lexeme) :
    scan state (run ++ more) =
      scan { state with nesting := ⟨outer, false⟩, previous := run.getLast?.or state.previous }
        more := by
  induction run generalizing state depth with
  | nil =>
      cases closes
      rw [show (⟨outer, false⟩ : Nesting) = state.nesting by simpa using nesting.symm]
      rfl
  | cons lexeme rest inductionHypothesis =>
      obtain ⟨allowed, laterCloses⟩ := closes
      obtain ⟨here, laterQuiet⟩ := quiet
      have noKeyword : state.keyword? lexeme.token = none := by
        cases depth with
        | zero => exact State.keyword?_of_staysQuiet (here rfl)
        | succ depth =>
            apply State.keyword?_of_block
            rw [nesting]
            simp [List.replicate_succ]
      have nested := State.nest_of_blocks nesting allowed
      rw [List.cons_append, scan_step _ items noKeyword nested]
      refine Eq.trans (inductionHypothesis rfl items laterCloses laterQuiet) ?_
      rw [List.getLast?_cons]
      cases rest.getLast? <;> rfl

theorem ahead_of_spelled {lexemes : List Lexeme} {tokens : List Token}
    (spelled : lexemes.map Lexeme.token = tokens) (n : Nat) : ahead lexemes n = tokens[n]? := by
  rw [← spelled, List.getElem?_map]
  rfl

theorem map_nothing (result : Except BraceFault (List Symbol)) :
    result.map (([] : List Symbol) ++ ·) = result := by
  cases result <;> rfl

/-- A state between two statements, inside the given braces of namespaces. -/
structure AtStatement (outer : List Brace) (scope : Option String) (state : State) : Prop where
  nesting : state.nesting = ⟨outer, false⟩
  outside : outer.all (· == .scope)
  scope : state.scope = scope
  items : state.items = none
  starts : startsStatement (state.previous.map Lexeme.token)

theorem AtStatement.keyword?_ident {outer : List Brace} {scope : Option String} {state : State}
    (between : AtStatement outer scope state) {word : List Char} {keyword : Keyword}
    (spells : Keyword.ofWord? word = some keyword) :
    state.keyword? (.ident word) = some keyword := by
  have topLevel : state.nesting.isTopLevel = true := by
    rw [between.nesting]
    exact between.outside
  rw [State.keyword?_eq, topLevel, between.starts]
  exact spells

theorem scan_keyword {state : State} {lexeme : Lexeme} {keyword : Keyword} (rest : List Lexeme)
    (items : state.items = none) (found : state.keyword? lexeme.token = some keyword)
    (goesOn : keyword ≠ .haltCompiler) :
    scan state (lexeme :: rest) =
      (scan { state.enter keyword rest with previous := some lexeme } rest).map
        ((state.declared keyword rest).toList ++ ·) := by
  rw [scan, items]
  simp only [found]

theorem inNamespace_of_braces (state : State) {name : Option (List Char)} {lexemes : List Lexeme}
    {tokens : List Token}
    (spelled : lexemes.map Lexeme.token = (name.map Token.ident).toList ++ .punct '{' :: tokens) :
    state.inNamespace lexemes =
      { state with
        scope := name.map fun name => Name.bare (.ofList name)
        nesting := state.nesting.expectScope } := by
  cases name <;> simp [State.inNamespace, nameAhead, punctAhead, ahead_of_spelled spelled,
    Token.name?, Token.isPunct]

theorem scan_to_brace {state : State} (items : state.items = none)
    (starts : startsStatement (state.previous.map Lexeme.token) = false)
    {name : Option (List Char)} {named : List Lexeme}
    (isNamed : named.map Lexeme.token = (name.map Token.ident).toList) {brace : Lexeme}
    (isBrace : brace.token = .punct '{') (more : List Lexeme) :
    scan state (named ++ brace :: more) =
      scan { state with nesting := state.nesting.opened, previous := some brace } more := by
  have atBrace : ∀ previous, scan { state with previous } (brace :: more) =
      scan { state with nesting := state.nesting.opened, previous := some brace } more := by
    intro previous
    have noKeyword : State.keyword? { state with previous } brace.token = none :=
      State.keyword?_of_punct isBrace
    have nested : State.nest { state with previous } brace =
        .ok { state with nesting := state.nesting.opened, previous } := by
      simp [State.nest, isBrace]
    rw [scan_step more (by exact items) noKeyword nested]
  cases name with
  | none =>
      cases List.map_eq_nil_iff.mp isNamed
      exact atBrace state.previous
  | some text =>
      obtain ⟨lexeme, nothing, rfl, isName, isNothing⟩ := List.map_eq_cons_iff.mp isNamed
      cases List.map_eq_nil_iff.mp isNothing
      have noKeyword : state.keyword? lexeme.token = none := by
        rw [State.keyword?_eq, starts]
        simp
      have nested : state.nest lexeme = .ok state := by
        simp [State.nest, isName]
      exact (scan_step _ items noKeyword nested).trans (atBrace (some lexeme))

theorem scan_opening {outer : List Brace} {scope : Option String} {state : State}
    (between : AtStatement outer scope state) {word : List Char}
    (spells : Keyword.ofWord? word = some .namespaceScope) (name : Option (List Char))
    {front : List Lexeme} (spelled : front.map Lexeme.token =
      .ident word :: (name.map Token.ident).toList ++ [.punct '{']) (more : List Lexeme) :
    ∃ next, AtStatement (.scope :: outer) (name.map fun name => Name.bare (.ofList name)) next ∧
      scan state (front ++ more) = scan next more := by
  obtain ⟨keyword, rest, rfl, isWord, isRest⟩ := List.map_eq_cons_iff.mp spelled
  obtain ⟨named, back, rfl, isNamed, isBack⟩ := List.map_eq_append_iff.mp isRest
  obtain ⟨brace, nothing, rfl, isBrace, isNothing⟩ := List.map_eq_cons_iff.mp isBack
  cases List.map_eq_nil_iff.mp isNothing
  have isKeyword : state.keyword? keyword.token = some .namespaceScope := by
    rw [isWord]
    exact between.keyword?_ident spells
  have entered : state.enter .namespaceScope (named ++ brace :: more) =
      { state with
        scope := name.map fun name => Name.bare (.ofList name)
        nesting := ⟨outer, true⟩ } := by
    have ahead : (named ++ brace :: more).map Lexeme.token =
        (name.map Token.ident).toList ++ .punct '{' :: more.map Lexeme.token := by
      simp [isNamed, isBrace]
    rw [State.enter, inNamespace_of_braces state ahead, between.nesting]
    rfl
  refine ⟨{ state with
      scope := name.map fun name => Name.bare (.ofList name)
      nesting := ⟨.scope :: outer, false⟩
      previous := some brace }, ⟨rfl, between.outside, rfl, between.items, ?_⟩, ?_⟩
  · simp [isBrace, startsStatement, Token.endsStatement, Token.isPunct]
  · rw [List.cons_append, List.append_assoc, List.singleton_append,
      scan_keyword _ between.items isKeyword (by decide), entered]
    refine (map_nothing _).trans (scan_to_brace (by exact between.items) ?_ isNamed isBrace more)
    simp only [Option.map_some, isWord]
    exact startsStatement_keyword spells

/-- A keyword is followed by a run of tokens that ends its statement. -/
structure Opens (word : List Char) (keyword : Keyword) (run : List Token) : Prop where
  spells : Keyword.ofWord? word = some keyword
  balanced : Balanced run
  quiet : Quiet (some (.ident word)) run
  ends : run.getLast?.any Token.endsStatement

namespace Opens

variable {word : List Char} {keyword : Keyword}

theorem bodied {front body : List Token} (spells : Keyword.ofWord? word = some keyword)
    (flat : Flat front) (balanced : Balanced body)
    (quiet : Quiet (some (.ident word)) (front ++ braced body)) :
    Opens word keyword (front ++ braced body) := by
  have last : (front ++ braced body).getLast? = some (.punct '}') := by
    simp [braced, List.getLast?_append, List.getLast?_cons]
  refine ⟨spells, (balanced_of_flat flat).append (balanced_braced balanced), quiet, ?_⟩
  rw [last]
  rfl

theorem terminated {front : List Token} (spells : Keyword.ofWord? word = some keyword)
    (balanced : Balanced front) (quiet : Quiet (some (.ident word)) (front ++ [.punct ';'])) :
    Opens word keyword (front ++ [.punct ';']) := by
  have closing : Balanced [.punct ';'] := by decide
  refine ⟨spells, balanced.append closing, quiet, ?_⟩
  rw [List.getLast?_concat]
  rfl

theorem starts_behind {run : List Lexeme} (opens : Opens word keyword (run.map Lexeme.token))
    (first : Lexeme) : startsStatement ((run.getLast?.or (some first)).map Lexeme.token) := by
  have ends := opens.ends
  rw [List.getLast?_map] at ends
  cases last : run.getLast? with
  | none => simp [last] at ends
  | some other =>
      rw [last] at ends
      exact ends

end Opens

theorem wellFormed_modifiers {words : List (List Char)}
    (modifier : ∀ word ∈ words, (Token.ident word).isModifier) :
    (Statement.other (words.map Token.ident)).WellFormed := by
  refine ⟨balanced_of_flat (by simp [Flat, Token.isPunct]), ?_, ?_⟩
  · apply outside_of_no_keyword
    simp only [List.mem_map]
    rintro _ ⟨word, membership, rfl⟩
    exact ofWord?_of_isModifier (modifier word membership)
  · rw [List.getLast?_map]
    cases last : words.getLast? with
    | none => rfl
    | some word =>
        have isModifier := modifier word (List.mem_of_getLast? last)
        simp [Token.endsStatement, isModifier]

/-- Behind its modifiers a well-formed statement is a keyword and a run, unless it is a run
throughout or a declaration of constants, whose values may hold anything. -/
theorem Statement.WellFormed.opens {statement : Statement} (wellFormed : statement.WellFormed) :
    match statement with
    | .classLike _ word _ _ _ =>
      ∃ kind ∈ [Keyword.classDecl, .interfaceDecl, .traitDecl], Opens word kind statement.rest
    | .enumeration word _ _ _ => Opens word .enumDecl statement.rest
    | .function word _ _ _ _ _ => Opens word .functionDecl statement.rest
    | .typeAlias word _ _ => Opens word .typeDecl statement.rest
    | .define word _ _ => Opens word .defineCall statement.rest
    | .inScope word _ => Opens word .namespaceScope statement.rest
    | .constants .. | .other _ => True := by
  cases statement with
  | classLike words word name header body =>
      obtain ⟨-, ⟨kind, isKind, spells⟩, -, -, flat, balanced, quiet⟩ := wellFormed
      have isFlat : Flat (.ident name :: header) := by simpa [Flat, Token.isPunct] using flat
      exact ⟨kind, isKind, .bodied spells isFlat balanced quiet⟩
  | enumeration word name header body =>
      obtain ⟨spells, -, flat, balanced, quiet⟩ := wellFormed
      have isFlat : Flat (.ident name :: header) := by simpa [Flat, Token.isPunct] using flat
      exact .bodied spells isFlat balanced quiet
  | function word byReference name mark header body =>
      obtain ⟨spells, opens, flat, balanced, quiet⟩ := wellFormed
      have isFlat : Flat ((if byReference then [.punct '&'] else []) ++
          .ident name :: .punct mark :: header) := by
        have plain : mark ≠ '{' ∧ mark ≠ '}' := by
          simp only [List.mem_cons, List.not_mem_nil, or_false] at opens
          rcases opens with rfl | rfl <;> decide
        cases byReference <;> simp [flat_cons, plain, flat, Token.isPunct]
      exact .bodied spells isFlat balanced quiet
  | typeAlias word name definition =>
      obtain ⟨spells, -, flat, quiet⟩ := wellFormed
      have isFlat : Flat (.ident name :: definition) := by simp [flat_cons, flat, Token.isPunct]
      exact .terminated spells (balanced_of_flat isFlat) quiet
  | define word literal arguments =>
      obtain ⟨spells, balanced, quiet⟩ := wellFormed
      refine .terminated spells ?_ quiet
      have closing : Balanced [.punct ')'] := by decide
      cases arguments with
      | none => exact balanced_of_flat (by simp [Flat, Token.isPunct])
      | some arguments =>
          have opening : Balanced [.punct '(', .str literal, .punct ','] :=
            balanced_of_flat (by simp [Flat, Token.isPunct])
          exact (opening.append balanced).append closing
  | inScope word name =>
      have quiet : Quiet (some (.ident word)) [.ident name, .punct ';'] := by
        refine ⟨?_, ?_, trivial⟩
        · simp [staysQuiet, startsStatement_keyword wellFormed]
        · simp [staysQuiet, Token.name?]
      have flat : Balanced [.ident name] := balanced_of_flat (by simp [Flat, Token.isPunct])
      exact Opens.terminated wellFormed flat quiet
  | constants word first others => trivial
  | other run => trivial

/-- Between statements, tokens lead to such a state again and declare symbols on the way. -/
def Reads (outer : List Brace) (scope : Option String) (tokens : List Token)
    (found : List Symbol) (after : Option String) : Prop :=
  ∀ state, AtStatement outer scope state → ∀ lexemes : List Lexeme,
    lexemes.map Lexeme.token = tokens → ∀ more, ∃ next, AtStatement outer after next ∧
      scan state (lexemes ++ more) = (scan next more).map (found ++ ·)

theorem map_found (first second : List Symbol) (result : Except BraceFault (List Symbol)) :
    (result.map (second ++ ·)).map (first ++ ·) = result.map (first ++ second ++ ·) := by
  cases result <;> simp [Except.map]

namespace Reads

variable {outer : List Brace} {scope : Option String}

theorem nil : Reads outer scope [] [] scope := by
  intro state between lexemes spelled more
  refine ⟨state, between, ?_⟩
  rw [List.map_eq_nil_iff.mp spelled, map_nothing]
  rfl

theorem append {middle after : Option String} {first second : List Token}
    {found later : List Symbol} (front : Reads outer scope first found middle)
    (back : Reads outer middle second later after) :
    Reads outer scope (first ++ second) (found ++ later) after := by
  intro state between lexemes spelled more
  obtain ⟨left, right, rfl, leftSpelled, rightSpelled⟩ := List.map_eq_append_iff.mp spelled
  obtain ⟨next, nextBetween, firstResult⟩ := front state between left leftSpelled (right ++ more)
  obtain ⟨last, lastBetween, secondResult⟩ := back next nextBetween right rightSpelled more
  refine ⟨last, lastBetween, ?_⟩
  rw [List.append_assoc, firstResult, secondResult, map_found]

theorem starts_getLast?_or {run : List Lexeme} {previous : Option Lexeme}
    (ends : (run.map Lexeme.token).getLast?.all Token.endsStatement)
    (starts : startsStatement (previous.map Lexeme.token)) :
    startsStatement ((run.getLast?.or previous).map Lexeme.token) := by
  rw [List.getLast?_map] at ends
  cases last : run.getLast? with
  | none => exact starts
  | some lexeme =>
      rw [last] at ends
      exact ends

theorem run {tokens : List Token} (isRun : (Statement.other tokens).WellFormed) :
    Reads outer scope tokens [] scope := by
  obtain ⟨balanced, quiet, ends⟩ := isRun
  rintro state between lexemes rfl more
  refine ⟨{ state with
    nesting := ⟨outer, false⟩, previous := lexemes.getLast?.or state.previous }, ?_, ?_⟩
  · exact ⟨rfl, between.outside, between.scope, between.items,
      starts_getLast?_or ends between.starts⟩
  · have level : startsStatement none = startsStatement (state.previous.map Lexeme.token) :=
      between.starts.symm
    have nesting : state.nesting = ⟨List.replicate 0 .block ++ outer, false⟩ := between.nesting
    rw [scan_run nesting between.items balanced (quiet.of_starts level), map_nothing]

theorem keyword {word : List Char} {keyword : Keyword} {tokens : List Token}
    {found : Option Symbol} {after : Option String} (opens : Opens word keyword tokens)
    (goesOn : keyword ≠ .haltCompiler)
    (declared : ∀ state : State, state.scope = scope → ∀ lexemes more,
      lexemes.map Lexeme.token = tokens ++ more → state.declared keyword lexemes = found ∧
        state.enter keyword lexemes = { state with scope := after }) :
    Reads outer scope (.ident word :: tokens) found.toList after := by
  intro state between lexemes spelled more
  obtain ⟨lexeme, rest, rfl, isWord, rfl⟩ := List.map_eq_cons_iff.mp spelled
  have isKeyword : state.keyword? lexeme.token = some keyword := by
    rw [isWord]
    exact between.keyword?_ident opens.spells
  obtain ⟨symbols, entered⟩ :=
    declared state between.scope (rest ++ more) (more.map Lexeme.token) (by simp)
  refine ⟨{ state with
      nesting := ⟨outer, false⟩, scope := after, previous := rest.getLast?.or (some lexeme) },
    ⟨rfl, between.outside, rfl, between.items, opens.starts_behind lexeme⟩, ?_⟩
  rw [List.cons_append, scan_keyword _ between.items isKeyword goesOn, entered, symbols]
  have nesting : ({ state with scope := after, previous := some lexeme } : State).nesting =
      ⟨List.replicate 0 .block ++ outer, false⟩ := between.nesting
  have quiet := opens.quiet
  rw [← isWord] at quiet
  exact congrArg _ (scan_run nesting between.items opens.balanced quiet more)

theorem declaration {word : List Char} {keyword : Keyword} {tokens : List Token}
    {found : Option Symbol} (opens : Opens word keyword tokens)
    (plain : keyword ∉ [.haltCompiler, .namespaceScope, .constDecl])
    (declared : ∀ state : State, state.scope = scope → ∀ lexemes more,
      lexemes.map Lexeme.token = tokens ++ more → state.declared keyword lexemes = found) :
    Reads outer scope (.ident word :: tokens) found.toList scope := by
  refine Reads.keyword opens (by simp_all) ?_
  rintro state rfl lexemes more spelled
  refine ⟨declared state rfl lexemes more spelled, ?_⟩
  cases keyword <;> simp at plain <;> rfl

end Reads

section Declared

variable {state : State} {lexemes : List Lexeme} {name : List Char} {tokens : List Token}

theorem declared_classLike {keyword : Keyword}
    (isClass : keyword ∈ [.classDecl, .interfaceDecl, .traitDecl])
    (spelled : lexemes.map Lexeme.token = .ident name :: tokens)
    (notExtends : ¬ (Token.ident name).isWord "extends")
    (notImplements : ¬ (Token.ident name).isWord "implements") :
    state.declared keyword lexemes = some (state.qualified .classLike name) := by
  have found : State.className lexemes = some name := by
    simp [State.className, wordAhead, nameAhead, ahead_of_spelled spelled, notExtends,
      notImplements, Token.name?]
  have noElement : punctAhead [':'] lexemes 0 = false := by
    simp [punctAhead, ahead_of_spelled spelled, Token.isPunct]
  simp only [List.mem_cons, List.not_mem_nil, or_false] at isClass
  rcases isClass with rfl | rfl | rfl <;> simp [State.declared, found, noElement]

theorem declared_enumeration {next : Token}
    (spelled : lexemes.map Lexeme.token = .ident name :: next :: tokens)
    (opens : next.isPunct ['{', ':'] ∨ next.isWord "implements") :
    state.declared .enumDecl lexemes = some (state.qualified .classLike name) := by
  simp [State.declared, State.enumName, punctAhead, wordAhead, nameAhead,
    ahead_of_spelled spelled, opens, Token.name?]

theorem declared_function {byReference : Bool} {mark : Char}
    (spelled : lexemes.map Lexeme.token =
      (if byReference then [.punct '&'] else []) ++ .ident name :: .punct mark :: tokens)
    (opens : mark ∈ ['(', '<']) :
    state.declared .functionDecl lexemes = some (state.qualified .function name) := by
  have tail : (lexemes.tail).map Lexeme.token = (lexemes.map Lexeme.token).tail := by simp
  rw [spelled] at tail
  cases byReference <;>
    simp_all [State.declared, State.functionName, punctAhead, nameAhead,
      ahead_of_spelled spelled, ahead_of_spelled tail, Token.name?, Token.isPunct]

theorem declared_typeAlias {next : Token}
    (spelled : lexemes.map Lexeme.token = .ident name :: next :: tokens)
    (opens : next.isPunct ['=', '<'] ∨ next.isWord "as") :
    state.declared .typeDecl lexemes = some (state.qualified .typeAlias name) := by
  simp [State.declared, State.aliasName, Lexeme.opensAlias, punctAhead, wordAhead, nameAhead,
    ahead_of_spelled spelled, opens, Token.name?]

theorem declared_define {literal : List Char} {mark : Char}
    (spelled : lexemes.map Lexeme.token = .punct '(' :: .str literal :: .punct mark :: tokens)
    (opens : mark ∈ [',', ')']) :
    state.declared .defineCall lexemes =
      (Literal.value literal).map fun name => ⟨.constant, Name.relative (.ofList name)⟩ := by
  simp_all [State.declared, State.definedName, punctAhead, ahead_of_spelled spelled, Token.isPunct]

end Declared

theorem Items.next_in_value {depth : Nat} (last : Option (List Char)) {token : Token}
    (allowed : token.isPunct Brackets.all.opening ∨ ¬ token.isPunct Brackets.all.closing ∨
      0 < depth)
    (stays : depth = 0 → staysInValue none token) :
    Items.next ⟨depth, last, true⟩ token =
      (some ⟨Brackets.all.step depth token, last, true⟩, none) := by
  unfold Items.next Brackets.step
  cases token <;> simp_all [Token.isPunct, Brackets.all, staysInValue]
  grind

theorem scan_items {state : State} {items : Items} (reading : state.items = some items)
    (lexeme : Lexeme) (rest : List Lexeme) :
    scan state (lexeme :: rest) =
      (scan { state with items := (items.next lexeme.token).1, previous := some lexeme } rest).map
        (((items.next lexeme.token).2.map (state.qualified .constant)).toList ++ ·) := by
  rw [scan, reading]

theorem scan_value {run : List Lexeme} {depth : Nat} {state : State} {last : Option (List Char)}
    {previous : Option Token} (reading : state.items = some ⟨depth, last, true⟩)
    (closes : Brackets.all.Closes depth (run.map Lexeme.token))
    (undivided : Brackets.all.Outside staysInValue previous depth (run.map Lexeme.token))
    (more : List Lexeme) :
    scan state (run ++ more) =
      scan { state with items := some ⟨0, last, true⟩, previous := run.getLast?.or state.previous }
        more := by
  induction run generalizing state depth previous with
  | nil =>
      cases closes
      rw [← reading]
      rfl
  | cons lexeme rest inductionHypothesis =>
      have next := Items.next_in_value last closes.1 undivided.1
      rw [List.cons_append, scan_items reading, next]
      refine (map_nothing _).trans ?_
      refine Eq.trans (inductionHypothesis rfl closes.2 undivided.2) ?_
      rw [List.getLast?_cons]
      cases rest.getLast? <;> rfl

theorem scan_constant (constant : Constant) (state : State) {last : Option (List Char)}
    (reading : state.items = some ⟨0, last, false⟩) {lexemes : List Lexeme}
    (spelled : lexemes.map Lexeme.token = constant.tokens) (more : List Lexeme) :
    ∃ previous, scan state (lexemes ++ more) =
      (scan { state with items := some ⟨0, none, true⟩, previous } more).map
        ([state.qualified .constant constant.name] ++ ·) := by
  obtain ⟨name, rest, rfl, isName, restSpelled⟩ := List.map_eq_cons_iff.mp spelled
  obtain ⟨equals, value, rfl, isEquals, isValue⟩ := List.map_eq_cons_iff.mp restSpelled
  have matched := constant.matched
  have undivided := constant.undivided
  rw [← isValue] at matched undivided
  refine ⟨value.getLast?.or (some equals), ?_⟩
  rw [List.cons_append, List.cons_append, scan_items reading, isName, scan_items rfl, isEquals]
  rw [scan_value rfl matched undivided more]
  cases scan _ more <;> simp [Items.next, Token.isPunct, Except.map, State.qualified]

theorem scan_constants (others : List Constant) (state : State)
    (reading : state.items = some ⟨0, none, true⟩) {lexemes : List Lexeme}
    (spelled : lexemes.map Lexeme.token =
      others.flatMap (fun constant => .punct ',' :: constant.tokens) ++ [.punct ';'])
    (more : List Lexeme) :
    ∃ last : Lexeme, last.token = .punct ';' ∧ scan state (lexemes ++ more) =
      (scan { state with items := none, previous := some last } more).map
        ((others.map fun constant => state.qualified .constant constant.name) ++ ·) := by
  induction others generalizing state lexemes with
  | nil =>
      obtain ⟨last, rest, rfl, isLast, isRest⟩ := List.map_eq_cons_iff.mp spelled
      cases List.map_eq_nil_iff.mp isRest
      refine ⟨last, isLast, ?_⟩
      rw [List.singleton_append, scan_items reading, isLast]
      simp [Items.next, Token.isPunct]
  | cons constant others inductionHypothesis =>
      rw [List.flatMap_cons, List.cons_append, List.cons_append, List.append_assoc] at spelled
      obtain ⟨comma, rest, rfl, isComma, isRest⟩ := List.map_eq_cons_iff.mp spelled
      obtain ⟨first, back, rfl, isFirst, isBack⟩ := List.map_eq_append_iff.mp isRest
      have afterComma : Items.next ⟨0, none, true⟩ (.punct ',') = (some ⟨0, none, false⟩, none) := by
        decide
      obtain ⟨previous, found⟩ := scan_constant constant
        { state with items := some ⟨0, none, false⟩, previous := some comma } rfl isFirst
        (back ++ more)
      obtain ⟨last, isLast, later⟩ := inductionHypothesis
        { state with items := some ⟨0, none, true⟩, previous } rfl isBack
      refine ⟨last, isLast, ?_⟩
      rw [List.cons_append, scan_items reading, isComma, afterComma, List.append_assoc, found, later]
      cases scan _ more <;> simp [Except.map, State.qualified]

namespace Reads

variable {outer : List Brace} {scope : Option String} {word : List Char}

theorem constants (spells : Keyword.ofWord? word = some .constDecl) (first : Constant)
    (others : List Constant) :
    Reads outer scope (Statement.constants word first others).tokens
      ((Statement.constants word first others).symbols scope) scope := by
  intro state between lexemes spelled more
  obtain ⟨keyword, rest, rfl, isWord, isRest⟩ := List.map_eq_cons_iff.mp spelled
  rw [Statement.rest, List.append_assoc] at isRest
  obtain ⟨front, back, rfl, isFront, isBack⟩ := List.map_eq_append_iff.mp isRest
  have isKeyword : state.keyword? keyword.token = some .constDecl := by
    rw [isWord]
    exact between.keyword?_ident spells
  obtain ⟨previous, found⟩ := scan_constant first
    { state with items := some {}, previous := some keyword } rfl isFront (back ++ more)
  obtain ⟨last, isLast, later⟩ := scan_constants others
    { state with items := some ⟨0, none, true⟩, previous } rfl isBack more
  refine ⟨{ state with items := none, previous := some last },
    ⟨between.nesting, between.outside, between.scope, rfl, ?_⟩, ?_⟩
  · simp [startsStatement, isLast, Token.endsStatement, Token.isPunct]
  · rw [List.cons_append, scan_keyword _ between.items isKeyword (by decide), List.append_assoc]
    refine (map_nothing _).trans (found.trans ?_)
    rw [later, map_found]
    simp only [State.qualified, between.scope, Statement.symbols, List.map_cons,
      List.singleton_append]

/-- Every well-formed statement leads from statement to statement and declares its symbols. -/
theorem item (item : Item) :
    Reads outer scope item.tokens (item.symbols scope) (item.scopeAfter scope) := by
  obtain ⟨statement, wellFormed⟩ := item
  have opens := wellFormed.opens
  cases statement with
  | classLike words keyword name header body =>
      obtain ⟨kind, isKind, opens⟩ := opens
      obtain ⟨modifier, -, notExtends, notImplements, -⟩ := wellFormed
      refine Reads.append (Reads.run (wellFormed_modifiers modifier)) ?_
      refine show Reads outer scope _ (some _).toList _ from
        Reads.declaration opens (by grind) ?_
      rintro state rfl lexemes more spelled
      exact declared_classLike isKind spelled notExtends notImplements
  | enumeration keyword name header body =>
      have marked := wellFormed.2.1
      refine show Reads outer scope _ (some _).toList _ from
        Reads.declaration opens (by decide) ?_
      rintro state rfl lexemes more spelled
      cases header with
      | nil => exact declared_enumeration spelled (.inl rfl)
      | cons next header => exact declared_enumeration spelled (by simpa using marked)
  | function keyword byReference name mark header body =>
      have marked := wellFormed.2.1
      refine show Reads outer scope _ (some _).toList _ from
        Reads.declaration opens (by decide) ?_
      rintro state rfl lexemes more spelled
      rw [Statement.rest, List.append_assoc, List.append_assoc] at spelled
      exact declared_function spelled marked
  | typeAlias keyword name definition =>
      have marked := wellFormed.2.1
      refine show Reads outer scope _ (some _).toList _ from
        Reads.declaration opens (by decide) ?_
      rintro state rfl lexemes more spelled
      cases definition with
      | nil => simp at marked
      | cons next definition => exact declared_typeAlias spelled (by simpa using marked)
  | define keyword literal arguments =>
      refine Reads.declaration opens (by decide) ?_
      rintro state rfl lexemes more spelled
      cases arguments with
      | none => exact declared_define spelled (by simp)
      | some arguments => exact declared_define spelled (by simp)
  | constants keyword first others => exact Reads.constants wellFormed first others
  | inScope keyword name =>
      refine show Reads outer scope _ (none : Option Symbol).toList _ from
        Reads.keyword opens (by decide) ?_
      intro state isScope lexemes more spelled
      have spelled : lexemes.map Lexeme.token = .ident name :: .punct ';' :: more := spelled
      refine ⟨rfl, ?_⟩
      simp [State.enter, State.inNamespace, nameAhead, punctAhead, ahead_of_spelled spelled,
        Token.name?, Token.isPunct, Item.scopeAfter, Statement.scopeAfter]
  | other run => exact Reads.run wellFormed

theorem inTurn {α : Type} {tokens : α → List Token} {symbols : Option String → α → List Symbol}
    {scopeAfter : Option String → α → Option String}
    (each : ∀ scope part, Reads outer scope (tokens part) (symbols scope part) (scopeAfter scope part))
    (scope : Option String) (parts : List α) :
    ∃ after, Reads outer scope (parts.flatMap tokens)
      (inTurn symbols scopeAfter scope parts) after := by
  induction parts generalizing scope with
  | nil => exact ⟨scope, Reads.nil⟩
  | cons part rest inductionHypothesis =>
      obtain ⟨after, later⟩ := inductionHypothesis (scopeAfter scope part)
      exact ⟨after, (each scope part).append later⟩

theorem block (spells : Keyword.ofWord? word = some .namespaceScope) (name : Option (List Char))
    (items : List Item) :
    Reads outer scope (Part.block word spells name items).tokens
      ((Part.block word spells name items).symbols scope) none := by
  intro state between lexemes spelled more
  have parts : (Part.block word spells name items).tokens =
      (.ident word :: (name.map Token.ident).toList ++ [.punct '{']) ++
        (items.flatMap Item.tokens ++ [.punct '}']) := by
    simp [Part.tokens, braced]
  rw [parts] at spelled
  obtain ⟨front, back, rfl, isFront, isBack⟩ := List.map_eq_append_iff.mp spelled
  obtain ⟨inner, closing, rfl, isInner, isClosing⟩ := List.map_eq_append_iff.mp isBack
  obtain ⟨brace, nothing, rfl, isBrace, isNothing⟩ := List.map_eq_cons_iff.mp isClosing
  cases List.map_eq_nil_iff.mp isNothing
  obtain ⟨start, startBetween, opened⟩ :=
    scan_opening between spells name isFront (inner ++ [brace] ++ more)
  obtain ⟨after, reads⟩ :=
        inTurn (fun _ => Reads.item) (name.map fun name => Name.bare (.ofList name)) items
  obtain ⟨last, lastBetween, read⟩ := reads start startBetween inner isInner (brace :: more)
  refine ⟨{ last with nesting := ⟨outer, false⟩, scope := none, previous := some brace },
    ⟨rfl, between.outside, rfl, lastBetween.items, ?_⟩, ?_⟩
  · simp [isBrace, startsStatement, Token.endsStatement, Token.isPunct]
  · rw [List.append_assoc, opened, List.append_assoc, List.singleton_append, read]
    have noKeyword : last.keyword? brace.token = none := State.keyword?_of_punct isBrace
    have nested : last.nest brace =
        .ok { last with nesting := ⟨outer, false⟩, scope := none } := by
      simp [State.nest, isBrace, Nesting.close?, lastBetween.nesting]
    exact congrArg _ (scan_step more lastBetween.items noKeyword nested)

theorem part (scope : Option String) (part : Part) :
    Reads outer scope part.tokens (part.symbols scope) (part.scopeAfter scope) := by
  cases part with
  | item only => exact Reads.item only
  | block word spells name items => exact Reads.block spells name items

end Reads

theorem scan_tokens (program : Program) {lexemes : List Lexeme}
    (spelled : lexemes.map Lexeme.token = program.tokens) :
    scan {} lexemes = .ok program.symbols := by
  obtain ⟨after, reads⟩ := Reads.inTurn Reads.part none program
  obtain ⟨last, between, read⟩ := reads {} ⟨rfl, rfl, rfl, rfl, rfl⟩ lexemes spelled []
  rw [List.append_nil] at read
  rw [read, scan, between.nesting]
  simp [Nesting.isBalanced, Except.map, Program.symbols]

theorem parse_of_scan {content : List UInt8} {path : Path} {lexemes : List Lexeme}
    {found : List Symbol} (lexed : lexFile path (Text.decode content) = .ok lexemes)
    (scanned : scan {} lexemes = .ok found) :
    parse content path = .ok (found.map (·.definedIn path)) := by
  simp only [parse, symbols, lexed, scanned]

/-- The fact scan finds in a program exactly what its statements declare, in order and under the
namespaces in effect. -/
theorem scan_program (program : Program) {lexemes : List Lexeme}
    (spelled : lexemes.map Lexeme.token = program.tokens) :
    scan {} lexemes = .ok program.symbols ∧
      ∀ content path, lexFile path (Text.decode content) = .ok lexemes →
        parse content path = .ok (program.symbols.map (·.definedIn path)) := by
  have scanned := scan_tokens program spelled
  exact ⟨scanned, fun content path lexed => parse_of_scan lexed scanned⟩

def sample : Program :=
  [.item ⟨.other [.openTag], by decide⟩,
    .block "namespace".toList (by decide) (some ['N'])
      [⟨.classLike ["final".toList] "class".toList ['A'] [] [.punct '{', .punct '}'], by decide⟩,
        ⟨.constants "const".toList
          ⟨['B'], [.punct '[', .number, .punct ',', .number, .punct ']'], by decide, by decide⟩
          [⟨['C'], [.number], by decide, by decide⟩], by decide⟩]]

def sampleContent : List UInt8 := [
  60, 63, 112, 104, 112, 32, 110, 97, 109, 101, 115, 112, 97, 99, 101, 32, 78, 123, 102, 105,
  110, 97, 108, 32, 99, 108, 97, 115, 115, 32, 65, 123, 123, 125, 125, 99, 111, 110, 115, 116,
  32, 66, 61, 91, 49, 44, 50, 93, 44, 67, 61, 51, 59, 125]

theorem parse_sampleContent :
    sample.symbols = [⟨.classLike, "N\\A"⟩, ⟨.constant, "N\\B"⟩, ⟨.constant, "N\\C"⟩] ∧
      parse sampleContent ⟨"a.php"⟩ = .ok (sample.symbols.map (·.definedIn ⟨"a.php"⟩)) := by
  refine ⟨by decide +kernel, ?_⟩
  have lexed : ((lexFile ⟨"a.php"⟩ (Text.decode sampleContent)).toOption.map
      (·.map Lexeme.token)) = some sample.tokens := by
    decide +kernel
  cases result : lexFile ⟨"a.php"⟩ (Text.decode sampleContent) with
  | error fault =>
      rw [result] at lexed
      exact absurd lexed (by simp [Except.toOption])
  | ok lexemes =>
      have spelled : lexemes.map Lexeme.token = sample.tokens := by
        simpa [result, Except.toOption] using lexed
      exact (scan_program sample spelled).2 sampleContent ⟨"a.php"⟩ result

end AutoloadIndex.FactScan
