import Mathlib.Data.List.Basic
import Mathlib.Data.Option.Basic
import AutoloadIndex.Dialect.Lowering
import AutoloadIndex.Proofs.ScanTrace

set_option autoImplicit false

/-!
The scan and the lowering find the same type aliases. They jump over different statements: the scan
over the items of constants, the lowering over the definitions of aliases. Where such statements
close properly, both passes come to their end with the same nesting, and every alias stands at a
place that both of them come by.
-/

namespace AutoloadIndex

namespace FactScan

open Lexeme (ahead nameAhead punctAhead wordAhead)

/-- An alias as the scan sees it, with the namespace in effect. -/
structure AliasSite where
  scope : Option String
  name : List Char
  offset : Nat
deriving DecidableEq, Repr

namespace AliasSite

def symbol (site : AliasSite) : Symbol :=
  ⟨.typeAlias, Name.qualify site.scope (.ofList site.name)⟩

def lifted (site : AliasSite) : Dialect.TypeAlias := ⟨site.name, site.offset⟩

end AliasSite

/-- The tokens of a statement between its keyword and the semicolon that ends it. Brackets are
matched, no semicolon stands outside of them, and no close tag anywhere; outside nested braces no
other statement starts. -/
def IsBody (keyword : Token) (body : List Token) : Prop :=
  Brackets.all.Closes 0 body ∧ Balanced body ∧
    Brackets.all.Outside (fun _ token => token != .punct ';') none 0 body ∧
    .closeTag ∉ body ∧ Quiet (some keyword) body

instance (keyword : Token) (body : List Token) : Decidable (IsBody keyword body) :=
  inferInstanceAs (Decidable (_ ∧ _))

namespace Visit

def aliasSite? (visit : Visit) : Option AliasSite :=
  if visit.keyword? = some .typeDecl then
    (State.aliasName visit.rest).map fun name => ⟨visit.state.scope, name, visit.lexeme.start⟩
  else none

/-- Whether constants or an alias are declared here, which one of the passes jumps over. -/
def opensStatement (visit : Visit) : Bool :=
  visit.keyword? = some .constDecl || visit.aliasSite?.isSome

def ClosesAt (visit : Visit) (length : Nat) : Prop :=
  ahead visit.rest length = some (.punct ';') ∧
    IsBody visit.lexeme.token ((visit.rest.take length).map Lexeme.token)

instance (visit : Visit) (length : Nat) : Decidable (visit.ClosesAt length) :=
  inferInstanceAs (Decidable (_ ∧ _))

def Closes (visit : Visit) : Prop := ∃ length, visit.ClosesAt length

end Visit

def aliasSites (state : State) (lexemes : List Lexeme) : List AliasSite :=
  (visits state lexemes).filterMap Visit.aliasSite?

end FactScan

namespace Dialect

open FactScan (State Brackets Quiet staysQuiet Balanced)
open Lexeme (ahead nameAhead punctAhead)

def braced (nesting : Nesting) (token : Token) : Nesting :=
  if token = .punct '{' then nesting.opened
  else if token = .punct '}' then nesting.closed
  else nesting

theorem removal_skip (nesting : Nesting) (previous : Option Token) (front more : List Lexeme) :
    removal nesting previous front.length (front ++ more) =
      removal nesting ((front.getLast?.map Lexeme.token).or previous) 0 more := by
  induction front generalizing previous with
  | nil => rfl
  | cons lexeme rest inductionHypothesis =>
      rw [List.length_cons, List.cons_append, removal, inductionHypothesis, List.getLast?_cons]
      cases rest.getLast? <;> rfl

theorem removal_cons (state : State) (lexeme : Lexeme) (rest : List Lexeme) :
    removal state.nesting (state.previous.map Lexeme.token) 0 (lexeme :: rest) =
      match state.keyword? lexeme.token with
      | some keyword =>
        let (found, nesting, skip) := statement state.nesting keyword lexeme rest
        found ++ removal nesting (some lexeme.token) skip rest
      | none => removal (braced state.nesting lexeme.token) (some lexeme.token) 0 rest := by
  rw [State.keyword?_eq, removal]
  cases isToken : lexeme.token with
  | ident word => rfl
  | punct mark => simp [Token.name?, braced]
  | _ => simp [Token.name?, braced]

theorem closed_of_close? {nesting inner : Nesting} {brace : Brace}
    (closed : nesting.close? = some (brace, inner)) : nesting.closed = inner := by
  unfold Nesting.close? at closed
  unfold Nesting.closed
  split at closed
  case h_1 => cases closed
  case h_2 outer braces =>
      cases closed
      rw [braces]
      rfl

theorem nesting_of_nest {state next : State} {lexeme : Lexeme}
    (nested : state.nest lexeme = .ok next) :
    next.nesting = braced state.nesting lexeme.token ∧ next.items = state.items := by
  unfold State.nest at nested
  unfold braced
  split at nested
  case isTrue opening =>
      cases nested
      rw [if_pos opening]
      exact ⟨rfl, rfl⟩
  case isFalse opening =>
      rw [if_neg opening]
      split at nested
      case isTrue closing =>
          rw [if_pos closing]
          split at nested
          case h_1 inner closed =>
              cases nested
              exact ⟨(closed_of_close? closed).symm, rfl⟩
          case h_2 inner closed =>
              cases nested
              exact ⟨(closed_of_close? closed).symm, rfl⟩
          case h_3 => cases nested
      case isFalse closing =>
          cases nested
          rw [if_neg closing]
          exact ⟨rfl, rfl⟩

theorem removal_run {outer : List Brace} {run : List Lexeme} {depth : Nat} {state : State}
    (nesting : state.nesting = ⟨List.replicate depth .block ++ outer, false⟩)
    (closes : Brackets.braces.Closes depth (run.map Lexeme.token))
    (quiet : Brackets.braces.Outside staysQuiet (state.previous.map Lexeme.token) depth
      (run.map Lexeme.token)) (more : List Lexeme) :
    removal state.nesting (state.previous.map Lexeme.token) 0 (run ++ more) =
      removal ⟨outer, false⟩ ((run.getLast?.or state.previous).map Lexeme.token) 0 more := by
  induction run generalizing state depth with
  | nil =>
      cases closes
      rw [nesting]
      rfl
  | cons lexeme rest inductionHypothesis =>
      obtain ⟨noKeyword, nested⟩ := State.quiet_step nesting closes.1 quiet.1
      have later := @inductionHypothesis (Brackets.braces.step depth lexeme.token)
        { state with
          nesting :=
            ⟨List.replicate (Brackets.braces.step depth lexeme.token) .block ++ outer, false⟩
          previous := some lexeme }
        rfl closes.2 quiet.2
      rw [List.cons_append, removal_cons, noKeyword]
      simp only [← (nesting_of_nest nested).1]
      refine later.trans ?_
      rw [List.getLast?_cons]
      cases rest.getLast? <;> rfl

theorem nesting_inNamespace (state : State) (rest : List Lexeme) :
    (state.inNamespace rest).nesting =
      if opensScope rest then state.nesting.expectScope else state.nesting := by
  unfold State.inNamespace opensScope
  cases isName : nameAhead rest 0 with
  | none => by_cases opens : punctAhead ['{'] rest 0 <;> simp [opens]
  | some name =>
      have noBrace : punctAhead ['{'] rest 0 = false := by
        obtain ⟨token, isToken, named⟩ := Option.bind_eq_some_iff.mp isName
        cases token <;> simp_all [punctAhead, Token.name?, Token.isPunct]
      by_cases ends : punctAhead [';'] rest 1
      · have noBody : punctAhead ['{'] rest 1 = false := by
          unfold punctAhead at ends ⊢
          cases next : ahead rest 1 with
          | none => rfl
          | some token =>
              rw [next] at ends
              cases token <;> simp_all [Token.isPunct]
        simp [noBrace, ends, noBody]
      · by_cases opens : punctAhead ['{'] rest 1 <;> simp [noBrace, ends, opens]

theorem typeAlias_of_aliasName (lexeme : Lexeme) {rest : List Lexeme}
    (noName : State.aliasName rest = none) : typeAlias lexeme rest = none := by
  unfold State.aliasName at noName
  unfold typeAlias
  cases isName : nameAhead rest 0 with
  | none => rfl
  | some name =>
      have notOpened : Lexeme.opensAlias rest = false := by simpa [isName] using noName
      simp only [notOpened]
      rfl

theorem statementEnd_body {depth : Nat} {body : List Lexeme} {last : Lexeme}
    {previous : Option Token} (closes : Brackets.all.Closes depth (body.map Lexeme.token))
    (undivided : Brackets.all.Outside (fun _ token => token != .punct ';') previous depth
      (body.map Lexeme.token))
    (untagged : .closeTag ∉ body.map Lexeme.token) (isLast : last.token = .punct ';')
    (more : List Lexeme) : Lexeme.statementEnd depth (body ++ last :: more) = some body.length := by
  induction body generalizing depth previous with
  | nil =>
      cases closes
      simp [Lexeme.statementEnd, isLast, Token.isPunct]
  | cons lexeme rest inductionHypothesis =>
      rw [List.map_cons, List.mem_cons, not_or] at untagged
      have later := inductionHypothesis closes.2 undivided.2 untagged.2
      have stays := undivided.1
      rw [List.cons_append, Lexeme.statementEnd, List.length_cons]
      unfold Brackets.step Brackets.all at later
      grind

theorem typeAlias_of_end {lexeme : Lexeme} {rest : List Lexeme} {word name : List Char}
    {length : Nat}
    (isWord : lexeme.token = .ident word) (named : State.aliasName rest = some name)
    (ends : Lexeme.statementEnd 0 rest = some length) :
    typeAlias lexeme rest =
      some (⟨spanOf (lexeme :: rest) 0 (length + 1), [⟨name, lexeme.start⟩]⟩, length + 1) := by
  unfold State.aliasName at named
  split at named
  case isFalse => cases named
  case isTrue opens =>
      have isEnd : Lexeme.statementEnd 0 (lexeme :: rest) = some (length + 1) := by
        simp [Lexeme.statementEnd, isWord, Token.isPunct, ends]
      simp only [typeAlias, named, opens, isEnd]
      rfl

end Dialect

namespace FactScan

open Dialect (removal)
open Lexeme (ahead nameAhead punctAhead)

/-- Where the body of a namespace is expected, it comes next or behind the name. -/
def Expects (state : State) (lexemes : List Lexeme) : Prop :=
  state.nesting.pending = true → punctAhead ['{'] lexemes 0 = true ∨
    startsStatement (state.previous.map Lexeme.token) = false ∧ (nameAhead lexemes 0).isSome = true ∧
      punctAhead ['{'] lexemes 1 = true

theorem Expects.settled {state : State} {lexeme : Lexeme} {rest : List Lexeme} {keyword : Keyword}
    (expects : Expects state (lexeme :: rest))
    (isKeyword : state.keyword? lexeme.token = some keyword) : state.nesting.pending = false := by
  obtain ⟨-, starts, word, isWord, -⟩ := State.keyword?_cases isKeyword
  rw [Bool.eq_false_iff]
  intro pending
  rcases expects pending with brace | ⟨within, -⟩
  · simp [punctAhead, ahead, isWord, Token.isPunct] at brace
  · rw [starts] at within
    cases within

theorem Expects.next {state next : State} {lexeme : Lexeme} {rest : List Lexeme}
    (expects : Expects state (lexeme :: rest)) (outside : state.items = none)
    (goesOn : Visit.next? ⟨state, lexeme, rest⟩ = some next) : Expects next rest := by
  intro pending
  rcases Visit.next?_cases outside goesOn with
    ⟨keyword, isKeyword, -, rfl⟩ | ⟨-, inner, nested, rfl⟩
  · have settled := expects.settled isKeyword
    obtain ⟨-, -, word, isWord, spells⟩ := State.keyword?_cases isKeyword
    cases keyword with
    | namespaceScope =>
        have nesting := Dialect.nesting_inNamespace state rest
        by_cases opens : Dialect.opensScope rest = true
        · simp only [Dialect.opensScope, Bool.or_eq_true, Bool.and_eq_true] at opens
          refine opens.imp_right fun named => ⟨?_, named⟩
          have behindKeyword := startsStatement_keyword spells
          rw [← isWord] at behindKeyword
          exact behindKeyword
        · rw [if_neg opens] at nesting
          simp only [State.enter, nesting, settled] at pending
          cases pending
    | _ =>
        simp only [State.enter, settled] at pending
        cases pending
  · have isPending : state.nesting.pending = true ∧ ¬ lexeme.token = .punct '{' := by
      rw [(Dialect.nesting_of_nest nested).1] at pending
      unfold Dialect.braced at pending
      split at pending
      case isTrue => cases pending
      case isFalse notOpening =>
          refine ⟨?_, notOpening⟩
          split at pending <;> exact pending
    rcases expects isPending.1 with brace | ⟨-, -, brace⟩
    · cases isToken : lexeme.token <;>
        simp_all [punctAhead, ahead, Token.isPunct]
    · exact .inl brace

/-- Where no alias starts, the lowering goes on as the scan does. -/
theorem removal_next {state next : State} {lexeme : Lexeme} {rest : List Lexeme}
    (outside : state.items = none) (goesOn : Visit.next? ⟨state, lexeme, rest⟩ = some next)
    (noAlias : Visit.aliasSite? ⟨state, lexeme, rest⟩ = none) :
    (removal state.nesting (state.previous.map Lexeme.token) 0 (lexeme :: rest)).aliases =
      (removal next.nesting (next.previous.map Lexeme.token) 0 rest).aliases := by
  rw [Dialect.removal_cons]
  rcases Visit.next?_cases outside goesOn with
    ⟨keyword, isKeyword, halts, rfl⟩ | ⟨noKeyword, inner, nested, rfl⟩
  · simp only [isKeyword]
    cases keyword with
    | haltCompiler => exact absurd rfl halts
    | namespaceScope =>
        have nesting := Dialect.nesting_inNamespace state rest
        simp only [Dialect.statement, State.enter, nesting]
        rfl
    | typeDecl =>
        have noName : State.aliasName rest = none := by
          simpa [Visit.aliasSite?, Visit.keyword?, outside, isKeyword] using noAlias
        simp only [Dialect.statement, Dialect.typeAlias_of_aliasName lexeme noName]
        rfl
    | _ => rfl
  · simp only [noKeyword, (Dialect.nesting_of_nest nested).1]
    rfl

theorem Visit.Closes.split {visit : Visit} (closes : visit.Closes) :
    ∃ body last more, visit.rest = body ++ last :: more ∧ last.token = .punct ';' ∧
      IsBody visit.lexeme.token (body.map Lexeme.token) := by
  obtain ⟨length, isEnd, isBody⟩ := closes
  obtain ⟨last, isLast, isSemicolon⟩ := Option.map_eq_some_iff.mp isEnd
  obtain ⟨inside, rfl⟩ := List.getElem?_eq_some_iff.mp isLast
  refine ⟨visit.rest.take length, visit.rest[length], visit.rest.drop (length + 1), ?_, isSemicolon,
    isBody⟩
  rw [List.getElem_cons_drop, List.take_append_drop]

theorem Visit.keyword?_of_aliasSite? {visit : Visit} (found : visit.aliasSite?.isSome) :
    visit.keyword? = some .typeDecl := by
  unfold aliasSite? at found
  split at found
  case isTrue isType => exact isType
  case isFalse => cases found

theorem Visit.keyword?_of_opensStatement {visit : Visit} (opens : visit.opensStatement) :
    ∃ keyword, visit.keyword? = some keyword := by
  simp only [opensStatement, Bool.or_eq_true, decide_eq_true_eq] at opens
  rcases opens with isConst | isAlias
  · exact ⟨_, isConst⟩
  · exact ⟨_, keyword?_of_aliasSite? isAlias⟩

theorem Quiet.semicolon {previous : Option Token} {depth : Nat} {run : List Token}
    (quiet : Brackets.braces.Outside staysQuiet previous depth run) :
    Brackets.braces.Outside staysQuiet previous depth (run ++ [.punct ';']) := by
  induction run generalizing previous depth with
  | nil =>
      refine ⟨fun _ => ?_, trivial⟩
      simp [staysQuiet, Token.name?]
  | cons token rest inductionHypothesis => exact ⟨quiet.1, inductionHypothesis quiet.2⟩

theorem IsBody.run {keyword : Token} {body : List Lexeme} {last : Lexeme}
    (isBody : IsBody keyword (body.map Lexeme.token)) (isLast : last.token = .punct ';') :
    Brackets.braces.Closes 0 ((body ++ [last]).map Lexeme.token) ∧
      Brackets.braces.Outside staysQuiet (some keyword) 0 ((body ++ [last]).map Lexeme.token) := by
  obtain ⟨-, balanced, -, -, quiet⟩ := isBody
  rw [List.map_append, List.map_singleton, isLast]
  refine ⟨?_, Quiet.semicolon quiet⟩
  have semicolon : Balanced [.punct ';'] := by decide
  exact balanced.append semicolon

theorem nesting_of_settled {nesting : Nesting} (settled : nesting.pending = false) :
    nesting = ⟨List.replicate 0 .block ++ nesting.braces, false⟩ := by
  rw [← settled]
  rfl

/-- The scan goes through the definition of an alias and over the items of constants, and finds no
alias there. -/
theorem passes_statement {state next : State} {lexeme last : Lexeme} {body more : List Lexeme}
    (settled : state.nesting.pending = false)
    (opens : Visit.opensStatement ⟨state, lexeme, body ++ last :: more⟩)
    (goesOn : Visit.next? ⟨state, lexeme, body ++ last :: more⟩ = some next)
    (isLast : last.token = .punct ';') (isBody : IsBody lexeme.token (body.map Lexeme.token)) :
    Passes (fun visit => visit.aliasSite?.isSome) next (body ++ last :: more)
      { state with previous := some last } more := by
  have isKeyword : ∀ visit : Visit, visit.aliasSite?.isSome → visit.keyword?.isSome := by
    intro visit found
    rw [Visit.keyword?_of_aliasSite? found]
    rfl
  simp only [Visit.opensStatement, Bool.or_eq_true, decide_eq_true_eq] at opens
  rcases opens with isConst | isAlias
  · have outside : state.items = none := Visit.items_of_keyword? isConst
    rw [Visit.next?_of_keyword? isConst (by decide)] at goesOn
    cases goesOn
    obtain ⟨closes, -, undivided, untagged, -⟩ := isBody
    rw [outside]
    exact passes_items isKeyword rfl closes undivided untagged isLast more
  · have isType := Visit.keyword?_of_aliasSite? isAlias
    have outside : state.items = none := Visit.items_of_keyword? isType
    rw [Visit.next?_of_keyword? isType (by decide)] at goesOn
    cases goesOn
    have nesting := nesting_of_settled settled
    obtain ⟨closes, quiet⟩ := isBody.run isLast
    have passes := @passes_run _ _ _ _ { state with previous := some lexeme } isKeyword nesting
      outside closes quiet more
    rw [List.append_assoc, List.singleton_append, List.getLast?_concat] at passes
    have unchanged : (⟨state.nesting.braces, false⟩ : Nesting) = state.nesting := nesting.symm
    rw [unchanged] at passes
    exact passes

theorem removal_statement {state : State} {lexeme last : Lexeme} {body more : List Lexeme}
    (settled : state.nesting.pending = false)
    (opens : Visit.opensStatement ⟨state, lexeme, body ++ last :: more⟩)
    (isLast : last.token = .punct ';') (isBody : IsBody lexeme.token (body.map Lexeme.token)) :
    (removal state.nesting (state.previous.map Lexeme.token) 0
        (lexeme :: (body ++ last :: more))).aliases =
      ((Visit.aliasSite? ⟨state, lexeme, body ++ last :: more⟩).map AliasSite.lifted).toList ++
        (removal state.nesting (some last.token) 0 more).aliases := by
  rw [Dialect.removal_cons]
  simp only [Visit.opensStatement, Bool.or_eq_true, decide_eq_true_eq] at opens
  rcases opens with isConst | isAlias
  · have noAlias : Visit.aliasSite? ⟨state, lexeme, body ++ last :: more⟩ = none := by
      simp [Visit.aliasSite?, isConst]
    have isKeyword : state.keyword? lexeme.token = some .constDecl := by
      rw [← isConst, Visit.keyword?_eq (Visit.items_of_keyword? isConst)]
    have nesting := nesting_of_settled settled
    obtain ⟨closes, quiet⟩ := isBody.run isLast
    have run := @Dialect.removal_run _ _ _ { state with previous := some lexeme } nesting closes
      quiet more
    have unchanged : (⟨state.nesting.braces, false⟩ : Nesting) = state.nesting := nesting.symm
    rw [List.append_assoc, List.singleton_append, List.getLast?_concat, unchanged] at run
    rw [noAlias]
    simp only [isKeyword, Dialect.statement]
    exact congrArg Dialect.Removal.aliases run
  · have isType := Visit.keyword?_of_aliasSite? isAlias
    have isKeyword : state.keyword? lexeme.token = some .typeDecl := by
      rw [← isType, Visit.keyword?_eq (Visit.items_of_keyword? isType)]
    obtain ⟨-, -, word, isWord, -⟩ := State.keyword?_cases isKeyword
    obtain ⟨site, isSite⟩ := Option.isSome_iff_exists.mp isAlias
    rw [Visit.aliasSite?, if_pos isType] at isSite
    obtain ⟨name, named, rfl⟩ := Option.map_eq_some_iff.mp isSite
    obtain ⟨closes, -, undivided, untagged, -⟩ := isBody
    have ends := Dialect.statementEnd_body closes undivided untagged isLast more
    have skipped := Dialect.removal_skip state.nesting (some lexeme.token) (body ++ [last]) more
    rw [List.append_assoc, List.singleton_append, List.getLast?_concat, List.length_append,
      List.length_singleton] at skipped
    rw [Visit.aliasSite?, if_pos isType, isSite]
    simp only [isKeyword, Dialect.statement, Dialect.typeAlias_of_end isWord named ends, skipped]
    rfl

theorem items_next {state next : State} {lexeme : Lexeme} {rest : List Lexeme}
    (outside : state.items = none) (goesOn : Visit.next? ⟨state, lexeme, rest⟩ = some next)
    (noConstants : Visit.keyword? ⟨state, lexeme, rest⟩ ≠ some .constDecl) : next.items = none := by
  rcases Visit.next?_cases outside goesOn with
    ⟨keyword, isKeyword, -, rfl⟩ | ⟨-, inner, nested, rfl⟩
  · cases keyword with
    | constDecl => exact absurd ((Visit.keyword?_eq outside).trans isKeyword) noConstants
    | namespaceScope =>
        have sameItems : (state.inNamespace rest).items = state.items := by
          unfold State.inNamespace
          grind
        exact sameItems.trans outside
    | _ => exact outside
  · exact (Dialect.nesting_of_nest nested).2.trans outside

theorem removal_aliases {state : State} {lexemes : List Lexeme} {found : List Symbol}
    (outside : state.items = none) (expects : Expects state lexemes)
    (scanned : scan state lexemes = .ok found)
    (closes : ∀ visit ∈ visits state lexemes, visit.opensStatement → visit.Closes) :
    (removal state.nesting (state.previous.map Lexeme.token) 0 lexemes).aliases =
      (aliasSites state lexemes).map AliasSite.lifted := by
  induction size : lexemes.length using Nat.strongRecOn generalizing state lexemes found with
  | ind _ inductionHypothesis =>
      subst size
      cases lexemes with
      | nil => rfl
      | cons lexeme rest =>
          rcases scan_cons_cases scanned with ⟨next, later, goesOn, isLater, -⟩ | ⟨halts, -⟩
          · rw [visits_cons goesOn, List.forall_mem_cons] at closes
            rw [aliasSites, visits_cons goesOn]
            by_cases opens : Visit.opensStatement ⟨state, lexeme, rest⟩ = true
            · -- One of the passes jumps, and both meet behind the statement.
              obtain ⟨keyword, isKeyword⟩ := Visit.keyword?_of_opensStatement opens
              rw [Visit.keyword?_eq outside] at isKeyword
              have settled : state.nesting.pending = false := expects.settled isKeyword
              obtain ⟨body, last, more, split, isLast, isBody⟩ := (closes.1 opens).split
              obtain rfl : rest = body ++ last :: more := split
              have passes := passes_statement settled opens goesOn isLast isBody
              obtain ⟨passed, visited, unseen⟩ := passes.visits
              obtain ⟨_, isScanned⟩ := passes.scan isLater
              have shorter : more.length < (lexeme :: (body ++ last :: more)).length := by
                simp only [List.length_cons, List.length_append]
                omega
              have behind := @inductionHypothesis more.length shorter
                { state with previous := some last } more _ outside
                (fun pending => absurd (settled.symm.trans pending) (by decide)) isScanned
                (fun visit membership => closes.2 visit (by simp [visited, membership])) rfl
              have nothing : passed.filterMap Visit.aliasSite? = [] := by
                rw [List.filterMap_eq_nil_iff]
                intro visit membership
                simpa using unseen visit membership
              rw [removal_statement settled opens isLast isBody, visited, List.filterMap_cons,
                List.filterMap_append, nothing]
              refine (congrArg _ behind).trans ?_
              cases Visit.aliasSite? ⟨state, lexeme, body ++ last :: more⟩ <;> rfl
            · simp only [Visit.opensStatement, Bool.or_eq_true, decide_eq_true_eq, not_or,
                Bool.not_eq_true, Option.isSome_eq_false_iff, Option.isNone_iff_eq_none] at opens
              rw [removal_next outside goesOn opens.2, List.filterMap_cons_none opens.2]
              exact inductionHypothesis rest.length (by simp) (items_next outside goesOn opens.1)
                (expects.next outside goesOn) isLater closes.2 rfl
          · have isKeyword : state.keyword? lexeme.token = some .haltCompiler := by
              rw [← halts, Visit.keyword?_eq outside]
            have noAlias : Visit.aliasSite? ⟨state, lexeme, rest⟩ = none := by
              simp [Visit.aliasSite?, halts]
            have nothing := Dialect.removal_skip state.nesting (some lexeme.token) rest []
            rw [List.append_nil] at nothing
            rw [Dialect.removal_cons, aliasSites, visits_last (Visit.next?_of_halt halts),
              List.filterMap_cons_none noAlias]
            simp only [isKeyword, Dialect.statement, nothing]
            rfl

theorem State.declared_isType {state : State} {keyword : Keyword} {rest : List Lexeme}
    {symbol : Symbol} (declared : state.declared keyword rest = some symbol) :
    symbol.kind = .typeAlias ↔ keyword = .typeDecl := by
  cases keyword <;> simp only [State.declared, Option.map_eq_some_iff, reduceCtorEq] at declared <;>
    obtain ⟨name, -, rfl⟩ := declared <;> simp [State.qualified]

theorem Visit.types_found (visit : Visit) :
    visit.found.filter (·.kind = .typeAlias) =
      (visit.aliasSite?.map AliasSite.symbol).toList := by
  unfold Visit.found
  cases reading : visit.state.items with
  | some items =>
      have noAlias : visit.aliasSite? = none := by simp [aliasSite?, keyword?, reading]
      rw [noAlias]
      cases (items.next visit.lexeme.token).2 <;> simp [State.qualified]
  | none =>
      simp only [aliasSite?, keyword?_eq reading]
      cases isKeyword : visit.state.keyword? visit.lexeme.token with
      | none => rfl
      | some keyword =>
          rw [Option.bind_some]
          by_cases isType : keyword = .typeDecl
          · subst isType
            rw [if_pos rfl, State.declared]
            cases State.aliasName visit.rest <;> simp [State.qualified, AliasSite.symbol]
          · rw [if_neg (by simpa using isType)]
            cases declared : visit.state.declared keyword visit.rest with
            | none => rfl
            | some symbol =>
                have notType := (State.declared_isType declared).not.mpr isType
                simp [notType]

/-- On one list of lexemes that the scan accepts, both passes find the same aliases, in the same
order. The scan reports each one under the namespace that is in effect where it stands. -/
theorem aliases_agree {lexemes : List Lexeme} {found : List Symbol}
    (scanned : scan {} lexemes = .ok found)
    (closes : ∀ visit ∈ visits {} lexemes, visit.opensStatement → visit.Closes) :
    (removal {} none 0 lexemes).aliases = (aliasSites {} lexemes).map AliasSite.lifted ∧
      found.filter (·.kind = .typeAlias) = (aliasSites {} lexemes).map AliasSite.symbol := by
  refine ⟨removal_aliases rfl (fun pending => absurd pending (by decide)) scanned closes, ?_⟩
  rw [scan_found scanned, List.filter_flatMap, aliasSites, List.map_filterMap,
    List.filterMap_eq_flatMap_toList]
  simp only [Visit.types_found]

def twoScopes : List Lexeme := [
  ⟨.ident "namespace".toList, 0, 9⟩, ⟨.ident ['N'], 10, 11⟩, ⟨.punct '{', 11, 12⟩,
  ⟨.ident "const".toList, 12, 17⟩, ⟨.ident ['K'], 18, 19⟩, ⟨.punct '=', 19, 20⟩,
  ⟨.punct '[', 20, 21⟩, ⟨.punct '{', 21, 22⟩, ⟨.number, 22, 23⟩, ⟨.punct ';', 23, 24⟩,
  ⟨.punct '}', 24, 25⟩, ⟨.punct ']', 25, 26⟩, ⟨.punct ';', 26, 27⟩,
  ⟨.ident "type".toList, 27, 31⟩, ⟨.ident ['T'], 32, 33⟩, ⟨.punct '=', 33, 34⟩,
  ⟨.punct '(', 34, 35⟩, ⟨.ident "int".toList, 35, 38⟩, ⟨.punct ')', 38, 39⟩, ⟨.punct ';', 39, 40⟩,
  ⟨.punct '}', 40, 41⟩, ⟨.ident "newtype".toList, 41, 48⟩, ⟨.ident ['U'], 49, 50⟩,
  ⟨.ident "as".toList, 51, 53⟩, ⟨.ident ['V'], 54, 55⟩, ⟨.punct '=', 55, 56⟩,
  ⟨.ident ['W'], 56, 57⟩, ⟨.punct ';', 57, 58⟩]

theorem aliases_twoScopes :
    (∀ visit ∈ visits {} twoScopes, visit.opensStatement → visit.Closes) ∧
      scan {} twoScopes =
        .ok [⟨.constant, "N\\K"⟩, ⟨.typeAlias, "N\\T"⟩, ⟨.typeAlias, "U"⟩] ∧
      (removal {} none 0 twoScopes).aliases = [⟨['T'], 27⟩, ⟨['U'], 41⟩] := by
  have closes : ∀ visit ∈ visits {} twoScopes, visit.opensStatement →
      ∃ length < visit.rest.length, visit.ClosesAt length := by
    decide +kernel
  have allClose : ∀ visit ∈ visits {} twoScopes, visit.opensStatement → visit.Closes := by
    intro visit membership opens
    obtain ⟨length, -, closesAt⟩ := closes visit membership opens
    exact ⟨length, closesAt⟩
  have scanned : scan {} twoScopes =
      .ok [⟨.constant, "N\\K"⟩, ⟨.typeAlias, "N\\T"⟩, ⟨.typeAlias, "U"⟩] := by
    decide +kernel
  have sites : aliasSites {} twoScopes = [⟨some "N", ['T'], 27⟩, ⟨none, ['U'], 41⟩] := by
    decide +kernel
  refine ⟨allClose, scanned, ?_⟩
  rw [(aliases_agree scanned allClose).1, sites]
  rfl

end FactScan

end AutoloadIndex
