import AutoloadIndex.Proofs.ScanTrace

set_option autoImplicit false

/-!
Which files the scan rejects. Braces count at every place the scan comes by, up to the end of the
program, except among the items of constants, where they are read like any other bracket. A file is
rejected exactly if it does not lex or if the braces that count are not balanced.
-/

namespace AutoloadIndex.FactScan

/-- With some braces open, a beginning of the tokens closes one that is not open. -/
def ClosesEarly (depth : Nat) (tokens : List Token) : Prop :=
  ∃ front, front <+: tokens ∧ depth + front.count (.punct '{') < front.count (.punct '}')

/-- With some braces open, the tokens do not close all of them and their own. -/
def LeavesOpen (depth : Nat) (tokens : List Token) : Prop :=
  tokens.count (.punct '}') < depth + tokens.count (.punct '{')

/-- The tokens at which braces count, from a state on: all the scan comes by outside the items of
constants. -/
def counted (state : State) (lexemes : List Lexeme) : List Token :=
  ((visits state lexemes).filter (·.state.items.isNone)).map (·.lexeme.token)

def Halts (state : State) (lexemes : List Lexeme) : Prop :=
  ∃ visit ∈ visits state lexemes, visit.keyword? = some .haltCompiler

/-- The braces that count are not balanced. What is open at the end of the program may stay open. -/
def Unbalanced (lexemes : List Lexeme) : Prop :=
  ClosesEarly 0 (counted {} lexemes) ∨ ¬ Halts {} lexemes ∧ LeavesOpen 0 (counted {} lexemes)

section Counting

variable {depth next : Nat} {token : Token} {rest : List Token}

theorem not_closesEarly_nil : ¬ ClosesEarly depth [] := by
  rintro ⟨front, isFront, closes⟩
  rw [List.prefix_nil.mp isFront] at closes
  exact absurd closes (by simp)

theorem closesEarly_cons
    (step : next + [token].count (.punct '}') = depth + [token].count (.punct '{')) :
    ClosesEarly depth (token :: rest) ↔ ClosesEarly next rest := by
  have cons : ∀ front : List Token,
      depth + (token :: front).count (.punct '{') < (token :: front).count (.punct '}') ↔
        next + front.count (.punct '{') < front.count (.punct '}') := by
    intro front
    rw [← List.singleton_append, List.count_append, List.count_append]
    omega
  constructor
  · rintro ⟨front, isFront, closes⟩
    rcases List.prefix_cons_iff.mp isFront with rfl | ⟨later, rfl, isLater⟩
    · exact absurd closes (by simp)
    · exact ⟨later, isLater, (cons later).mp closes⟩
  · rintro ⟨front, isFront, closes⟩
    exact ⟨token :: front, List.cons_prefix_cons.mpr ⟨rfl, isFront⟩, (cons front).mpr closes⟩

theorem leavesOpen_cons
    (step : next + [token].count (.punct '}') = depth + [token].count (.punct '{')) :
    LeavesOpen depth (token :: rest) ↔ LeavesOpen next rest := by
  unfold LeavesOpen
  rw [← List.singleton_append, List.count_append, List.count_append]
  omega

theorem closesEarly_stray : ClosesEarly 0 (.punct '}' :: rest) :=
  ⟨[.punct '}'], ⟨rest, rfl⟩, by decide⟩

end Counting

namespace State

variable {state next : State} {lexeme : Lexeme}

theorem depth_of_nest (nested : state.nest lexeme = .ok next) :
    next.nesting.braces.length + [lexeme.token].count (.punct '}') =
      state.nesting.braces.length + [lexeme.token].count (.punct '{') := by
  unfold nest at nested
  by_cases opening : lexeme.token = .punct '{'
  · rw [if_pos opening] at nested
    cases nested
    simp [opening, Nesting.opened]
  rw [if_neg opening] at nested
  by_cases closing : lexeme.token = .punct '}'
  · rw [if_pos closing] at nested
    cases braces : state.nesting.braces with
    | nil => simp [Nesting.close?, braces] at nested
    | cons brace outer =>
        simp only [Nesting.close?, braces] at nested
        cases brace <;> cases nested <;> simp [closing]
  · rw [if_neg closing] at nested
    cases nested
    simp [opening, closing]

/-- Only a brace that closes nothing is refused. -/
theorem stray_of_nest {fault : BraceFault} (failed : state.nest lexeme = .error fault) :
    lexeme.token = .punct '}' ∧ state.nesting.braces = [] := by
  unfold nest at failed
  split at failed
  case isTrue => cases failed
  case isFalse =>
      split at failed
      case isFalse => cases failed
      case isTrue closing =>
          refine ⟨closing, ?_⟩
          cases braces : state.nesting.braces with
          | nil => rfl
          | cons brace outer => cases brace <;> simp [Nesting.close?, braces] at failed

theorem braces_enter (keyword : Keyword) (rest : List Lexeme) :
    (state.enter keyword rest).nesting.braces = state.nesting.braces := by
  cases keyword with
  | namespaceScope =>
      unfold enter inNamespace
      grind [Nesting.expectScope]
  | _ => rfl

theorem count_keyword {keyword : Keyword} (isKeyword : state.keyword? lexeme.token = some keyword)
    (mark : Char) : [lexeme.token].count (.punct mark) = 0 := by
  obtain ⟨-, -, word, isWord, -⟩ := keyword?_cases isKeyword
  simp [isWord]

end State

/-- Behind a lexeme the scan fails if it fails from the next place on. -/
theorem scan_next {state next : State} {lexeme : Lexeme} {rest : List Lexeme}
    (goesOn : Visit.next? ⟨state, lexeme, rest⟩ = some next) :
    scan state (lexeme :: rest) =
      (scan next rest).map (Visit.found ⟨state, lexeme, rest⟩ ++ ·) := by
  cases reading : state.items with
  | some items =>
      rw [Visit.next?_of_items reading] at goesOn
      cases goesOn
      rw [scan_items reading]
      simp only [Visit.found, reading]
  | none =>
      rcases Visit.next?_cases reading goesOn with
        ⟨keyword, isKeyword, notHalt, rfl⟩ | ⟨noKeyword, inner, nested, rfl⟩
      · rw [scan_keyword rest reading isKeyword notHalt]
        simp only [Visit.found, reading, isKeyword, Option.bind_some]
      · rw [scan_step rest reading noKeyword nested]
        have nothing : Visit.found ⟨state, lexeme, rest⟩ = [] := by
          simp only [Visit.found, reading, noKeyword, Option.bind_none, Option.toList_none]
        rw [nothing]
        cases scan { inner with previous := some lexeme } rest <;> rfl

theorem Visit.next?_eq_none {visit : Visit} (ends : visit.next? = none) :
    visit.state.items = none ∧ (visit.keyword? = some .haltCompiler ∨
      visit.keyword? = none ∧ ∃ fault, visit.state.nest visit.lexeme = .error fault) := by
  cases reading : visit.state.items with
  | some items => simp [next?_of_items reading] at ends
  | none =>
      refine ⟨rfl, ?_⟩
      cases isKeyword : visit.keyword? with
      | some keyword =>
          by_cases halts : keyword = .haltCompiler
          · exact .inl (congrArg some halts)
          · simp [next?_of_keyword? isKeyword halts] at ends
      | none =>
          cases nested : visit.state.nest visit.lexeme with
          | error fault => exact .inr ⟨rfl, fault, rfl⟩
          | ok next => simp [next?_of_nest reading isKeyword nested] at ends

theorem Visit.depth_next {visit : Visit} {next : State} (goesOn : visit.next? = some next) :
    match visit.state.items with
    | some _ => next.nesting.braces.length = visit.state.nesting.braces.length
    | none =>
      next.nesting.braces.length + [visit.lexeme.token].count (.punct '}') =
        visit.state.nesting.braces.length + [visit.lexeme.token].count (.punct '{') := by
  cases reading : visit.state.items with
  | some items =>
      rw [next?_of_items reading] at goesOn
      cases goesOn
      rfl
  | none =>
      rcases next?_cases reading goesOn with ⟨keyword, isKeyword, -, rfl⟩ | ⟨-, inner, nested, rfl⟩
      · simp only [State.braces_enter, State.count_keyword isKeyword]
      · have depth := State.depth_of_nest nested
        exact depth

theorem scan_fails_iff (state : State) (lexemes : List Lexeme) :
    (∃ fault, scan state lexemes = .error fault) ↔
      ClosesEarly state.nesting.braces.length (counted state lexemes) ∨
        ¬ Halts state lexemes ∧
          LeavesOpen state.nesting.braces.length (counted state lexemes) := by
  induction lexemes generalizing state with
  | nil =>
      have noHalt : ¬ Halts state [] := by simp [Halts, visits]
      have nothing : counted state [] = [] := rfl
      rw [nothing, scan]
      cases braces : state.nesting.braces <;>
        simp [not_closesEarly_nil, noHalt, LeavesOpen, Nesting.isBalanced, braces]
  | cons lexeme rest inductionHypothesis =>
      cases goesOn : Visit.next? ⟨state, lexeme, rest⟩ with
      | some next =>
          have sameFault : (∃ fault, scan state (lexeme :: rest) = .error fault) ↔
              ∃ fault, scan next rest = .error fault := by
            rw [scan_next goesOn]
            cases scan next rest <;> simp [Except.map]
          have sameHalt : Halts state (lexeme :: rest) ↔ Halts next rest := by
            have notHere : Visit.keyword? ⟨state, lexeme, rest⟩ ≠ some .haltCompiler := by
              intro halts
              simp [Visit.next?_of_halt halts] at goesOn
            simp [Halts, visits_cons goesOn, notHere]
          have depth := Visit.depth_next goesOn
          rw [sameFault, sameHalt, inductionHypothesis next]
          cases reading : state.items with
          | some items =>
              simp only [reading] at depth
              have uncounted : counted state (lexeme :: rest) = counted next rest := by
                simp [counted, visits_cons goesOn, reading]
              rw [uncounted, depth]
          | none =>
              simp only [reading] at depth
              have count : counted state (lexeme :: rest) = lexeme.token :: counted next rest := by
                simp [counted, visits_cons goesOn, reading]
              rw [count, closesEarly_cons depth, leavesOpen_cons depth]
      | none =>
          obtain ⟨reading, ends⟩ := Visit.next?_eq_none goesOn
          have outside : state.items = none := reading
          have count : counted state (lexeme :: rest) = [lexeme.token] := by
            simp [counted, visits_last goesOn, outside]
          rcases ends with halts | ⟨noKeyword, fault, failed⟩
          · have isKeyword : state.keyword? lexeme.token = some .haltCompiler := by
              rw [← halts, Visit.keyword?_eq outside]
            have isHalt : Halts state (lexeme :: rest) :=
              ⟨_, by rw [visits_last goesOn]; exact List.mem_singleton_self _, halts⟩
            have early : ¬ ClosesEarly state.nesting.braces.length [lexeme.token] := by
              have same : state.nesting.braces.length + [lexeme.token].count (.punct '}') =
                  state.nesting.braces.length + [lexeme.token].count (.punct '{') := by
                simp only [State.count_keyword isKeyword]
              rw [closesEarly_cons same]
              exact not_closesEarly_nil
            rw [count, scan, outside]
            simp [isKeyword, isHalt, early]
          · have isNone : state.keyword? lexeme.token = none := by
              rw [← noKeyword, Visit.keyword?_eq outside]
            obtain ⟨closing, empty⟩ := State.stray_of_nest failed
            have closing : lexeme.token = .punct '}' := closing
            have empty : state.nesting.braces = [] := empty
            have failed : state.nest lexeme = .error fault := failed
            have fails : scan state (lexeme :: rest) = .error fault := by
              rw [scan, outside]
              simp only [isNone, failed]
            rw [count, closing, empty, fails]
            exact iff_of_true ⟨fault, rfl⟩ (.inl closesEarly_stray)

/-- A file is rejected if it does not lex, if a brace outside the items of constants closes what is
not open, or if one stays open although the program does not end before the file does. -/
theorem parse_fails_iff (content : List UInt8) (path : Path) :
    (∃ e, parse content path = .error e) ↔
      (∃ e, lexFile path (Text.decode content) = .error e) ∨
        ∃ lexemes, lexFile path (Text.decode content) = .ok lexemes ∧ Unbalanced lexemes := by
  unfold parse symbols
  cases lexFile path (Text.decode content) with
  | error e => simp
  | ok lexemes =>
      have fails := scan_fails_iff {} lexemes
      simp only [reduceCtorEq, exists_false, false_or, Except.ok.injEq, exists_eq_left',
        Unbalanced]
      refine Iff.trans ?_ fails
      cases scan {} lexemes with
      | ok found => simp
      | error fault => cases fault <;> simp

/-- The content `<?php const A=};`. -/
def strayInConstant : List UInt8 :=
  [60, 63, 112, 104, 112, 32, 99, 111, 110, 115, 116, 32, 65, 61, 125, 59]

/-- Over all lexemes a brace that closes nothing need not be noticed: one in the value of a constant
is not. -/
theorem parse_strayInConstant :
    (∃ lexemes, lexFile ⟨"a.php"⟩ (Text.decode strayInConstant) = .ok lexemes ∧
      ClosesEarly 0 (lexemes.map Lexeme.token)) ∧
      parse strayInConstant ⟨"a.php"⟩ = .ok [Symbol.definedIn ⟨.constant, "A"⟩ ⟨"a.php"⟩] := by
  have lexed : (lexFile ⟨"a.php"⟩ (Text.decode strayInConstant)).toOption = some [
      ⟨.openTag, 0, 5⟩, ⟨.ident "const".toList, 6, 11⟩, ⟨.ident ['A'], 12, 13⟩,
      ⟨.punct '=', 13, 14⟩, ⟨.punct '}', 14, 15⟩, ⟨.punct ';', 15, 16⟩] := by
    decide +kernel
  cases result : lexFile ⟨"a.php"⟩ (Text.decode strayInConstant) with
  | error e => simp [result, Except.toOption] at lexed
  | ok lexemes =>
      rw [result] at lexed
      cases lexed
      refine ⟨⟨_, rfl, _, List.prefix_refl _, by decide⟩, ?_⟩
      unfold parse symbols
      rw [result]
      rfl

end AutoloadIndex.FactScan
