import AutoloadIndex.Proofs.GrammarScan

set_option autoImplicit false

/-!
The places the scan comes by. Each of them is a lexeme with the state in front of it and what
follows; a scan that succeeds finds what is declared at these places, in their order.
-/

namespace AutoloadIndex.FactScan

structure Visit where
  state : State
  lexeme : Lexeme
  rest : List Lexeme
deriving DecidableEq, Repr

namespace Visit

/-- The keyword that starts a statement at this place; none among the items of constants. -/
def keyword? (visit : Visit) : Option Keyword :=
  if visit.state.items.isSome then none else visit.state.keyword? visit.lexeme.token

def next? (visit : Visit) : Option State :=
  match visit.state.items with
  | some items =>
    some { visit.state with
      items := (items.next visit.lexeme.token).1, previous := some visit.lexeme }
  | none =>
    match visit.state.keyword? visit.lexeme.token with
    | some .haltCompiler => none
    | some keyword =>
      some { visit.state.enter keyword visit.rest with previous := some visit.lexeme }
    | none =>
      (visit.state.nest visit.lexeme).toOption.map fun next =>
        { next with previous := some visit.lexeme }

def found (visit : Visit) : List Symbol :=
  match visit.state.items with
  | some items =>
    ((items.next visit.lexeme.token).2.map (visit.state.qualified .constant)).toList
  | none =>
    ((visit.state.keyword? visit.lexeme.token).bind (visit.state.declared · visit.rest)).toList

theorem keyword?_eq {visit : Visit} (outside : visit.state.items = none) :
    visit.keyword? = visit.state.keyword? visit.lexeme.token := by
  simp [keyword?, outside]

theorem items_of_keyword? {visit : Visit} {keyword : Keyword}
    (isKeyword : visit.keyword? = some keyword) : visit.state.items = none := by
  unfold keyword? at isKeyword
  split at isKeyword
  case isTrue => cases isKeyword
  case isFalse outside => simpa using outside

theorem next?_of_keyword? {visit : Visit} {keyword : Keyword}
    (isKeyword : visit.keyword? = some keyword) (goesOn : keyword ≠ .haltCompiler) :
    visit.next? =
      some { visit.state.enter keyword visit.rest with previous := some visit.lexeme } := by
  have outside := items_of_keyword? isKeyword
  rw [keyword?_eq outside] at isKeyword
  simp only [next?, outside, isKeyword]

theorem next?_of_halt {visit : Visit} (isKeyword : visit.keyword? = some .haltCompiler) :
    visit.next? = none := by
  have outside := items_of_keyword? isKeyword
  rw [keyword?_eq outside] at isKeyword
  simp only [next?, outside, isKeyword]

theorem next?_of_nest {visit : Visit} {next : State} (outside : visit.state.items = none)
    (noKeyword : visit.keyword? = none) (nested : visit.state.nest visit.lexeme = .ok next) :
    visit.next? = some { next with previous := some visit.lexeme } := by
  rw [keyword?_eq outside] at noKeyword
  simp only [next?, outside, noKeyword, nested, Except.toOption, Option.map_some]

theorem next?_of_items {visit : Visit} {items : Items} (reading : visit.state.items = some items) :
    visit.next? = some { visit.state with
      items := (items.next visit.lexeme.token).1, previous := some visit.lexeme } := by
  simp only [next?, reading]

theorem next?_cases {visit : Visit} {next : State} (outside : visit.state.items = none)
    (goesOn : visit.next? = some next) :
    (∃ keyword, visit.state.keyword? visit.lexeme.token = some keyword ∧
      keyword ≠ .haltCompiler ∧
      next = { visit.state.enter keyword visit.rest with previous := some visit.lexeme }) ∨
    visit.state.keyword? visit.lexeme.token = none ∧
      ∃ nested, visit.state.nest visit.lexeme = .ok nested ∧
        next = { nested with previous := some visit.lexeme } := by
  cases isKeyword : visit.state.keyword? visit.lexeme.token with
  | some keyword =>
      have atKeyword := (keyword?_eq outside).trans isKeyword
      by_cases halts : keyword = .haltCompiler
      · rw [next?_of_halt (halts ▸ atKeyword)] at goesOn
        cases goesOn
      · rw [next?_of_keyword? atKeyword halts] at goesOn
        exact .inl ⟨keyword, rfl, halts, (Option.some.inj goesOn).symm⟩
  | none =>
      refine .inr ⟨rfl, ?_⟩
      cases nested : visit.state.nest visit.lexeme with
      | error fault => simp [next?, outside, isKeyword, nested, Except.toOption] at goesOn
      | ok inner =>
          rw [next?_of_nest outside ((keyword?_eq outside).trans isKeyword) nested] at goesOn
          exact ⟨inner, rfl, (Option.some.inj goesOn).symm⟩

end Visit

theorem State.keyword?_cases {state : State} {token : Token} {keyword : Keyword}
    (isKeyword : state.keyword? token = some keyword) :
    state.nesting.isTopLevel = true ∧ startsStatement (state.previous.map Lexeme.token) = true ∧
      ∃ word, token = .ident word ∧ Keyword.ofWord? word = some keyword := by
  rw [State.keyword?_eq] at isKeyword
  split at isKeyword
  case isTrue starts =>
      obtain ⟨topLevel, starts⟩ := Bool.and_eq_true_iff.mp starts
      cases token with
      | ident word => exact ⟨topLevel, starts, word, rfl, isKeyword⟩
      | _ => cases isKeyword
  case isFalse => cases isKeyword

def visits (state : State) : List Lexeme → List Visit
  | [] => []
  | lexeme :: rest =>
    let visit : Visit := ⟨state, lexeme, rest⟩
    visit :: match visit.next? with
      | some next => visits next rest
      | none => []

theorem visits_cons {state next : State} {lexeme : Lexeme} {rest : List Lexeme}
    (goesOn : Visit.next? ⟨state, lexeme, rest⟩ = some next) :
    visits state (lexeme :: rest) = ⟨state, lexeme, rest⟩ :: visits next rest := by
  simp only [visits, goesOn]

theorem visits_last {state : State} {lexeme : Lexeme} {rest : List Lexeme}
    (ends : Visit.next? ⟨state, lexeme, rest⟩ = none) :
    visits state (lexeme :: rest) = [⟨state, lexeme, rest⟩] := by
  simp only [visits, ends]

/-- A scan that succeeds goes on behind a lexeme or ends with it, at the end of the program. -/
theorem scan_cons_cases {state : State} {lexeme : Lexeme} {rest : List Lexeme}
    {found : List Symbol} (scanned : scan state (lexeme :: rest) = .ok found) :
    (∃ next later, Visit.next? ⟨state, lexeme, rest⟩ = some next ∧ scan next rest = .ok later ∧
      found = Visit.found ⟨state, lexeme, rest⟩ ++ later) ∨
    Visit.keyword? ⟨state, lexeme, rest⟩ = some .haltCompiler ∧
      found = Visit.found ⟨state, lexeme, rest⟩ := by
  have mapped : ∀ {result : Except BraceFault (List Symbol)} {first : List Symbol},
      result.map (first ++ ·) = .ok found → ∃ later, result = .ok later ∧ found = first ++ later := by
    intro result first isOk
    cases result with
    | error fault => cases isOk
    | ok later => exact ⟨later, rfl, (Except.ok.inj isOk).symm⟩
  cases reading : state.items with
  | some items =>
      rw [scan_items reading] at scanned
      obtain ⟨later, isLater, rfl⟩ := mapped scanned
      refine .inl ⟨_, later, Visit.next?_of_items reading, isLater, ?_⟩
      simp only [Visit.found, reading]
  | none =>
      cases isKeyword : state.keyword? lexeme.token with
      | some keyword =>
          have atKeyword : Visit.keyword? ⟨state, lexeme, rest⟩ = some keyword :=
            (Visit.keyword?_eq reading).trans isKeyword
          by_cases halts : keyword = .haltCompiler
          · subst halts
            rw [scan, reading] at scanned
            simp only [isKeyword] at scanned
            cases scanned
            refine .inr ⟨atKeyword, ?_⟩
            simp only [Visit.found, reading, isKeyword]
            rfl
          · rw [scan_keyword rest reading isKeyword halts] at scanned
            obtain ⟨later, isLater, rfl⟩ := mapped scanned
            refine .inl ⟨_, later, Visit.next?_of_keyword? atKeyword halts, isLater, ?_⟩
            simp only [Visit.found, reading, isKeyword, Option.bind_some]
      | none =>
          cases nested : state.nest lexeme with
          | error fault =>
              rw [scan, reading] at scanned
              simp only [isKeyword, nested] at scanned
              cases scanned
          | ok next =>
              rw [scan_step rest reading isKeyword nested] at scanned
              have noKeyword : Visit.keyword? ⟨state, lexeme, rest⟩ = none :=
                (Visit.keyword?_eq reading).trans isKeyword
              refine .inl ⟨_, found, Visit.next?_of_nest reading noKeyword nested, scanned, ?_⟩
              simp only [Visit.found, reading, isKeyword]
              rfl

theorem scan_found {state : State} {lexemes : List Lexeme} {found : List Symbol}
    (scanned : scan state lexemes = .ok found) :
    found = (visits state lexemes).flatMap Visit.found := by
  induction lexemes generalizing state found with
  | nil =>
      unfold scan at scanned
      split at scanned
      case isTrue =>
          cases scanned
          rfl
      case isFalse => cases scanned
  | cons lexeme rest inductionHypothesis =>
      rcases scan_cons_cases scanned with ⟨next, later, goesOn, isLater, rfl⟩ | ⟨halts, rfl⟩
      · rw [visits_cons goesOn, List.flatMap_cons, ← inductionHypothesis isLater]
      · rw [visits_last (Visit.next?_of_halt halts), List.flatMap_singleton]

theorem State.quiet_step {outer : List Brace} {state : State} {depth : Nat} {lexeme : Lexeme}
    (nesting : state.nesting = ⟨List.replicate depth .block ++ outer, false⟩)
    (allowed : lexeme.token.isPunct ['{'] ∨ ¬ lexeme.token.isPunct ['}'] ∨ 0 < depth)
    (quiet : depth = 0 → staysQuiet (state.previous.map Lexeme.token) lexeme.token) :
    state.keyword? lexeme.token = none ∧
      state.nest lexeme = .ok { state with nesting :=
        ⟨List.replicate (Brackets.braces.step depth lexeme.token) .block ++ outer, false⟩ } := by
  refine ⟨?_, State.nest_of_blocks nesting allowed⟩
  cases depth with
  | zero => exact State.keyword?_of_staysQuiet (quiet rfl)
  | succ depth =>
      apply State.keyword?_of_block
      rw [nesting]
      simp [List.replicate_succ]

/-- The scan goes from one place to another one and comes by no place of a kind in between. -/
inductive Passes (seen : Visit → Prop) : State → List Lexeme → State → List Lexeme → Prop where
  | refl {state : State} {lexemes : List Lexeme} : Passes seen state lexemes state lexemes
  | step {state next last : State} {lexeme : Lexeme} {rest more : List Lexeme}
      (goesOn : Visit.next? ⟨state, lexeme, rest⟩ = some next)
      (unseen : ¬ seen ⟨state, lexeme, rest⟩) (later : Passes seen next rest last more) :
      Passes seen state (lexeme :: rest) last more

namespace Passes

variable {seen : Visit → Prop} {state last : State} {lexemes more : List Lexeme}

theorem visits (passes : Passes seen state lexemes last more) :
    ∃ passed, FactScan.visits state lexemes = passed ++ FactScan.visits last more ∧
      ∀ visit ∈ passed, ¬ seen visit := by
  induction passes with
  | refl => exact ⟨[], rfl, by simp⟩
  | step goesOn unseen later inductionHypothesis =>
      obtain ⟨passed, split, unseenLater⟩ := inductionHypothesis
      refine ⟨_ :: passed, by rw [visits_cons goesOn, split, List.cons_append], ?_⟩
      rw [List.forall_mem_cons]
      exact ⟨unseen, unseenLater⟩

theorem scan (passes : Passes seen state lexemes last more) {found : List Symbol}
    (scanned : FactScan.scan state lexemes = .ok found) :
    ∃ later, FactScan.scan last more = .ok later := by
  induction passes generalizing found with
  | refl => exact ⟨found, scanned⟩
  | step goesOn unseen later inductionHypothesis =>
      rcases scan_cons_cases scanned with ⟨next, found, isNext, isFound, -⟩ | ⟨halts, -⟩
      · cases goesOn.symm.trans isNext
        exact inductionHypothesis isFound
      · rw [Visit.next?_of_halt halts] at goesOn
        cases goesOn

end Passes

/-- The scan passes a run without keywords in front of statements. -/
theorem passes_run {seen : Visit → Prop} {outer : List Brace} {run : List Lexeme} {depth : Nat}
    {state : State} (isKeyword : ∀ visit, seen visit → visit.keyword?.isSome)
    (nesting : state.nesting = ⟨List.replicate depth .block ++ outer, false⟩)
    (items : state.items = none)
    (closes : Brackets.braces.Closes depth (run.map Lexeme.token))
    (quiet : Brackets.braces.Outside staysQuiet (state.previous.map Lexeme.token) depth
      (run.map Lexeme.token)) (more : List Lexeme) :
    Passes seen state (run ++ more)
      { state with nesting := ⟨outer, false⟩, previous := run.getLast?.or state.previous } more := by
  induction run generalizing state depth with
  | nil =>
      cases closes
      rw [show (⟨outer, false⟩ : Nesting) = state.nesting by simpa using nesting.symm]
      exact .refl
  | cons lexeme rest inductionHypothesis =>
      obtain ⟨noKeyword, nested⟩ := State.quiet_step nesting closes.1 quiet.1
      have atLexeme : Visit.keyword? ⟨state, lexeme, rest ++ more⟩ = none :=
        (Visit.keyword?_eq items).trans noKeyword
      refine .step (Visit.next?_of_nest items atLexeme nested) ?_ ?_
      · intro isSeen
        have found := isKeyword _ isSeen
        simp [atLexeme] at found
      · have later := @inductionHypothesis (Brackets.braces.step depth lexeme.token)
          { state with
            nesting :=
              ⟨List.replicate (Brackets.braces.step depth lexeme.token) .block ++ outer, false⟩
            previous := some lexeme }
          rfl items closes.2 quiet.2
        rw [List.getLast?_cons]
        cases last : rest.getLast? <;> simpa [last] using later

theorem Items.next_open {items : Items} {token : Token}
    (stays : items.depth = 0 → token ≠ .punct ';') (untagged : token ≠ .closeTag) :
    ∃ following, (items.next token).1 = some following ∧
      following.depth = Brackets.all.step items.depth token := by
  unfold Items.next Brackets.step Brackets.all
  grind

theorem Items.next_end {items : Items} (outside : items.depth = 0) :
    (items.next (.punct ';')).1 = none := by
  simp [Items.next, Token.isPunct, outside]

/-- The scan passes the items of constants up to the end of the declaration. -/
theorem passes_items {seen : Visit → Prop} {run : List Lexeme} {last : Lexeme} {state : State}
    {items : Items} {previous : Option Token}
    (isKeyword : ∀ visit, seen visit → visit.keyword?.isSome)
    (reading : state.items = some items)
    (closes : Brackets.all.Closes items.depth (run.map Lexeme.token))
    (undivided : Brackets.all.Outside (fun _ token => token != .punct ';') previous items.depth
      (run.map Lexeme.token))
    (untagged : .closeTag ∉ run.map Lexeme.token) (isLast : last.token = .punct ';')
    (more : List Lexeme) :
    Passes seen state (run ++ last :: more)
      { state with items := none, previous := some last } more := by
  have unseen : ∀ {state : State} {items : Items} (lexeme : Lexeme) (rest : List Lexeme),
      state.items = some items → ¬ seen ⟨state, lexeme, rest⟩ := by
    intro state items lexeme rest reading isSeen
    have found := isKeyword _ isSeen
    simp [Visit.keyword?, reading] at found
  induction run generalizing state items previous with
  | nil =>
      refine .step (Visit.next?_of_items reading) (unseen last more reading) ?_
      rw [isLast, Items.next_end closes]
      exact .refl
  | cons lexeme rest inductionHypothesis =>
      rw [List.map_cons, List.mem_cons, not_or] at untagged
      have stays : items.depth = 0 → lexeme.token ≠ .punct ';' := fun outside =>
        bne_iff_ne.mp (undivided.1 outside)
      obtain ⟨following, isFollowing, depth⟩ := Items.next_open stays (Ne.symm untagged.1)
      obtain ⟨-, laterCloses⟩ := closes
      obtain ⟨-, laterUndivided⟩ := undivided
      rw [← depth] at laterCloses laterUndivided
      refine .step (Visit.next?_of_items reading) (unseen lexeme _ reading) ?_
      rw [isFollowing]
      exact inductionHypothesis rfl laterCloses laterUndivided untagged.2

end AutoloadIndex.FactScan
