import AutoloadIndex.Proofs.ProgramEnd
import AutoloadIndex.Proofs.Restatement

set_option autoImplicit false

/-!
Blocks are opaque to the scan. No keyword counts inside of a block, and no declaration in front of a
brace looks behind it, so a body with balanced braces can be exchanged for any other one.
-/

namespace AutoloadIndex.FactScan

open Lexeme

/-- The scan comes to the brace behind some lexemes and takes it for the start of a block. -/
def OpensBlock (state : State) (front : List Lexeme) (opening : Lexeme) : Prop :=
  opening.token = .punct '{' ∧ ∃ visit ∈ visits state (front ++ [opening]),
    visit.rest = [] ∧ visit.state.items = none ∧ visit.state.nesting.pending = false

instance (state : State) (front : List Lexeme) (opening : Lexeme) :
    Decidable (OpensBlock state front opening) :=
  inferInstanceAs (Decidable (_ ∧ ∃ visit ∈ visits state (front ++ [opening]), _))

section Lookahead

variable {opening : Lexeme} (isOpening : opening.token = .punct '{')

include isOpening

theorem nameAhead_brace (more : List Lexeme) : nameAhead (opening :: more) 0 = none := by
  simp [nameAhead, ahead, isOpening, Token.name?]

theorem punctAhead_brace {marks : List Char} (notBrace : '{' ∉ marks) (more : List Lexeme) :
    punctAhead marks (opening :: more) 0 = false := by
  simp [punctAhead, ahead, isOpening, Token.isPunct, notBrace]

namespace State

theorem functionName_brace (first : Lexeme) (more : List Lexeme) :
    functionName (first :: opening :: more) = functionName [first, opening] := by
  have mark : punctAhead ['&'] (first :: opening :: more) 0 = punctAhead ['&'] [first, opening] 0 :=
    rfl
  unfold functionName
  rw [mark]
  split
  · simp only [List.tail_cons, nameAhead_brace isOpening, ite_self]
  · rfl

theorem definedName_brace (first : Lexeme) (more : List Lexeme) :
    definedName (first :: opening :: more) = definedName [first, opening] := by
  have noString : ∀ more, ahead (first :: opening :: more) 1 = some (.punct '{') := by
    intro more
    simp [ahead, isOpening]
  simp only [definedName, noString]

/-- What a keyword declares is decided in front of the next brace. -/
theorem declared_brace (state : State) (keyword : Keyword) (rest more : List Lexeme) :
    state.declared keyword (rest ++ opening :: more) =
      state.declared keyword (rest ++ [opening]) := by
  match rest with
  | [] =>
      have noName := nameAhead_brace isOpening
      have noMark : ∀ mark, mark ≠ '{' → ∀ more, punctAhead [mark] (opening :: more) 0 = false :=
        fun mark differs => punctAhead_brace isOpening (by simpa using differs.symm)
      have noDefinition : ∀ more, definedName (opening :: more) = none := by
        intro more
        unfold definedName
        rw [noMark '(' (by decide)]
        split <;> rfl
      cases keyword <;>
        simp [declared, className, enumName, functionName, aliasName, noName, noDefinition,
          noMark ':' (by decide), noMark '&' (by decide)]
  | [first] =>
      have element := @elementName_append opening '{' isOpening (by decide) [first] (by simp) more
      exact @declared_append state keyword [first, opening] more (Nat.lt_succ_self 1)
        (fun _ => element) (functionName_brace isOpening first more)
        (definedName_brace isOpening first more)
  | first :: second :: rest =>
      have near : 2 < (first :: second :: rest ++ [opening]).length := by simp
      rw [List.append_cons]
      refine declared_append state keyword (Nat.lt_of_succ_lt near) (fun _ => ?_)
        (functionName_append near more) (definedName_append near more)
      rw [← List.append_cons]
      exact elementName_append isOpening (by decide) (by simp) more

theorem enter_brace (state : State) (keyword : Keyword) (rest more : List Lexeme) :
    state.enter keyword (rest ++ opening :: more) = state.enter keyword (rest ++ [opening]) := by
  cases rest with
  | nil =>
      cases keyword with
      | namespaceScope =>
          simp [enter, inNamespace, nameAhead_brace isOpening, punctAhead, ahead]
      | _ => rfl
  | cons first rest =>
      rw [List.append_cons]
      exact enter_append state keyword (by simp) more

end State

namespace Visit

theorem found_brace (state : State) (lexeme : Lexeme) (rest more : List Lexeme) :
    found ⟨state, lexeme, rest ++ opening :: more⟩ =
      found ⟨state, lexeme, rest ++ [opening]⟩ := by
  simp only [found, State.declared_brace isOpening]

theorem next?_brace (state : State) (lexeme : Lexeme) (rest more : List Lexeme) :
    next? ⟨state, lexeme, rest ++ opening :: more⟩ =
      next? ⟨state, lexeme, rest ++ [opening]⟩ := by
  simp only [next?, State.enter_brace isOpening]

end Visit

end Lookahead

/-- The scan comes to the start of a block in one state and with the same symbols found, whatever
stands behind it. -/
theorem scan_to_block {state : State} {front : List Lexeme} {opening : Lexeme}
    (opens : OpensBlock state front opening) :
    ∃ (last : State) (found : List Symbol), last.items = none ∧ last.nesting.pending = false ∧
      ∀ more, scan state (front ++ opening :: more) =
        (scan last (opening :: more)).map (found ++ ·) := by
  obtain ⟨isOpening, visit, visited, isLast, outside, settled⟩ := opens
  induction front generalizing state with
  | nil =>
      rcases List.mem_cons.mp visited with rfl | later
      · exact ⟨state, [], outside, settled, fun more => (map_nothing _).symm⟩
      · exfalso
        split at later <;> simp [visits] at later
  | cons lexeme rest inductionHypothesis =>
      cases goesOn : Visit.next? ⟨state, lexeme, rest ++ [opening]⟩ with
      | none =>
          rw [List.cons_append, visits_last goesOn, List.mem_singleton] at visited
          simp [visited] at isLast
      | some next =>
          rw [List.cons_append, visits_cons goesOn, List.mem_cons] at visited
          rcases visited with rfl | later
          · simp at isLast
          · obtain ⟨last, found, lastOutside, lastSettled, scanned⟩ := inductionHypothesis later
            refine ⟨last, Visit.found ⟨state, lexeme, rest ++ [opening]⟩ ++ found, lastOutside,
              lastSettled, ?_⟩
            intro more
            have alsoGoesOn := (Visit.next?_brace isOpening state lexeme rest more).trans goesOn
            rw [List.cons_append, scan_next alsoGoesOn, scanned, map_found,
              Visit.found_brace isOpening]

theorem outside_in_block {allowed : Option Token → Token → Bool} {depth : Nat} {body : List Token}
    (closes : Brackets.braces.Closes depth body) (previous : Option Token) :
    Brackets.braces.Outside allowed previous (depth + 1) (body ++ [.punct '}']) := by
  induction body generalizing depth previous with
  | nil => exact ⟨by simp, trivial⟩
  | cons token rest inductionHypothesis =>
      have deeper : Brackets.braces.step (depth + 1) token = Brackets.braces.step depth token + 1 := by
        have allowedToken := closes.1
        unfold Brackets.step
        grind
      refine ⟨by simp, ?_⟩
      rw [deeper]
      exact inductionHypothesis closes.2 _

theorem scan_over_block {state : State} (items : state.items = none)
    (settled : state.nesting.pending = false) {opening closing : Lexeme} {body : List Lexeme}
    (isOpening : opening.token = .punct '{') (isClosing : closing.token = .punct '}')
    (balanced : Balanced (body.map Lexeme.token)) (more : List Lexeme) :
    scan state (opening :: (body ++ closing :: more)) =
      scan { state with previous := some closing } more := by
  have noKeyword : state.keyword? opening.token = none := State.keyword?_of_punct isOpening
  have nested : state.nest opening =
      .ok { state with nesting := ⟨.block :: state.nesting.braces, false⟩ } := by
    simp [State.nest, isOpening, Nesting.opened, settled]
  have spelled : (body ++ [closing]).map Lexeme.token = body.map Lexeme.token ++ [.punct '}'] := by
    rw [List.map_append, List.map_singleton, isClosing]
  have closes : Brackets.braces.Closes 1 ((body ++ [closing]).map Lexeme.token) := by
    have last : Brackets.braces.Closes 1 [.punct '}'] := by decide
    rw [spelled]
    exact Brackets.Closes.append balanced last
  have quiet : Brackets.braces.Outside staysQuiet (some opening.token) 1
      ((body ++ [closing]).map Lexeme.token) := by
    rw [spelled]
    exact outside_in_block balanced _
  have passed := @scan_run state.nesting.braces (body ++ [closing]) 1
    { state with nesting := ⟨.block :: state.nesting.braces, false⟩, previous := some opening }
    rfl items closes quiet more
  rw [scan_step _ items noKeyword nested, List.append_cons, passed, List.getLast?_concat]
  rw [show (⟨state.nesting.braces, false⟩ : Nesting) = state.nesting by rw [← settled]]
  rfl

/-- What the scan finds does not depend on the body of a block. What stands behind the block may
move, as long as the same lexemes are joined. -/
theorem scan_exchangeBody {state : State} {front body other behind moved : List Lexeme}
    {opening closing otherClosing : Lexeme} (opens : OpensBlock state front opening)
    (isClosing : closing.token = .punct '}') (alsoClosing : otherClosing.token = .punct '}')
    (balanced : Balanced (body.map Lexeme.token))
    (alsoBalanced : Balanced (other.map Lexeme.token)) (sameBehind : joints behind = joints moved)
    (found : List Symbol) :
    scan state (front ++ opening :: (body ++ closing :: behind)) = .ok found ↔
      scan state (front ++ opening :: (other ++ otherClosing :: moved)) = .ok found := by
  obtain ⟨last, declared, outside, settled, scanned⟩ := scan_to_block opens
  have after : State.Alike { last with previous := some closing }
      { last with previous := some otherClosing } := by
    refine ⟨rfl, rfl, rfl, ?_⟩
    simp only [Option.map_some, isClosing, alsoClosing]
  have same := scan_restated (restated_of_joints sameBehind) after
  rw [scanned, scanned, scan_over_block outside settled opens.1 isClosing balanced,
    scan_over_block outside settled opens.1 alsoClosing alsoBalanced]
  apply ok_iff_of_toOption
  rw [toOption_map, toOption_map, same]

/-- The lexemes of `namespace N;function f()`. -/
def functionHead : List Lexeme := [
  ⟨.ident "namespace".toList, 0, 9⟩, ⟨.ident ['N'], 10, 11⟩, ⟨.punct ';', 11, 12⟩,
  ⟨.ident "function".toList, 12, 20⟩, ⟨.ident ['f'], 21, 22⟩, ⟨.punct '(', 22, 23⟩,
  ⟨.punct ')', 23, 24⟩]

def declaringBody : List Lexeme := [
  ⟨.ident "namespace".toList, 25, 34⟩, ⟨.punct '{', 34, 35⟩, ⟨.punct '}', 35, 36⟩,
  ⟨.ident "class".toList, 36, 41⟩, ⟨.ident ['A'], 42, 43⟩, ⟨.punct '{', 43, 44⟩,
  ⟨.punct '}', 44, 45⟩]

def elementClass (place : Nat) : List Lexeme := [
  ⟨.ident "class".toList, place, place + 5⟩, ⟨.punct ':', place + 6, place + 7⟩,
  ⟨.ident ['b'], place + 7, place + 8⟩, ⟨.punct '-', place + 8, place + 9⟩,
  ⟨.ident ['c'], place + 9, place + 10⟩, ⟨.punct '{', place + 10, place + 11⟩,
  ⟨.punct '}', place + 11, place + 12⟩]

theorem scan_emptiedFunction :
    OpensBlock {} functionHead ⟨.punct '{', 24, 25⟩ ∧
      scan {} (functionHead ++ ⟨.punct '{', 24, 25⟩ :: ([] ++ ⟨.punct '}', 25, 26⟩ ::
        elementClass 26)) = .ok [⟨.function, "N\\f"⟩, ⟨.classLike, "N\\xhp_b_c"⟩] := by
  have opens : OpensBlock {} functionHead ⟨.punct '{', 24, 25⟩ := by decide +kernel
  have full : scan {} (functionHead ++ ⟨.punct '{', 24, 25⟩ :: (declaringBody ++
      ⟨.punct '}', 45, 46⟩ :: elementClass 46)) =
        .ok [⟨.function, "N\\f"⟩, ⟨.classLike, "N\\xhp_b_c"⟩] := by decide +kernel
  have moved : joints (elementClass 46) = joints (elementClass 26) := by decide
  have exchange := @scan_exchangeBody {} functionHead declaringBody [] (elementClass 46)
    (elementClass 26) _ ⟨.punct '}', 45, 46⟩ ⟨.punct '}', 25, 26⟩ opens rfl rfl (by decide)
    (by decide) moved
  exact ⟨opens, (exchange _).mp full⟩

end AutoloadIndex.FactScan
