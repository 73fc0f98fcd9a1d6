import AutoloadIndex.Proofs.AngleGroups

set_option autoImplicit false

/-!
How many angle brackets are open behind some lexemes. Groups leave the number as it was, so a
header from which groups are taken has as many brackets too much as before. The arrow of an array
has a bracket too much by itself.
-/

namespace AutoloadIndex.Dialect

open FactScan (Brackets)

def angleWeight (token : Token) : Int :=
  if token = .punct '<' then 1 else if token = .punct '>' then -1 else 0

def angleSum : List Lexeme → Int
  | [] => 0
  | lexeme :: rest => angleWeight lexeme.token + angleSum rest

section Sum

variable {depth : Nat} {token : Token} {lexeme : Lexeme} {lexemes : List Lexeme}

@[simp]
theorem angleSum_cons (lexeme : Lexeme) (rest : List Lexeme) :
    angleSum (lexeme :: rest) = angleWeight lexeme.token + angleSum rest :=
  rfl

@[simp]
theorem angleSum_append (first second : List Lexeme) :
    angleSum (first ++ second) = angleSum first + angleSum second := by
  induction first with
  | nil => exact (Int.zero_add _).symm
  | cons lexeme rest inductionHypothesis =>
      rw [List.cons_append, angleSum_cons, angleSum_cons, inductionHypothesis, Int.add_assoc]

theorem step_weight (allowed : Brackets.angles.Allows depth token) :
    (Brackets.angles.step depth token : Int) = depth + angleWeight token := by
  cases token with
  | punct mark =>
      have pair : ¬ '<' = '>' := by decide
      simp only [Brackets.Allows, Brackets.angles, Token.isPunct, List.contains_cons,
        List.contains_nil, Bool.or_false, beq_iff_eq] at allowed
      simp only [Brackets.step, Brackets.angles, Token.isPunct, angleWeight, Token.punct.injEq,
        List.contains_cons, List.contains_nil, Bool.or_false, beq_iff_eq]
      grind
  | _ => simp [Brackets.step, Token.isPunct, angleWeight]

theorem Nested.angleSum (nested : Nested depth lexemes) : depth + angleSum lexemes = 0 := by
  induction lexemes generalizing depth with
  | nil =>
      obtain rfl : depth = 0 := nested
      rfl
  | cons lexeme rest inductionHypothesis =>
      have later := inductionHypothesis nested.2
      rw [step_weight nested.1] at later
      rw [angleSum_cons]
      omega

theorem angleSum_of_plain (plain : ∀ lexeme ∈ lexemes, lexeme.token.isPunct ['<', '>'] = false) :
    angleSum lexemes = 0 := by
  induction lexemes with
  | nil => rfl
  | cons lexeme rest inductionHypothesis =>
      rw [List.forall_mem_cons] at plain
      rw [angleSum_cons, inductionHypothesis plain.2]
      cases isToken : lexeme.token with
      | punct mark => simp_all [angleWeight, Token.isPunct]
      | _ => simp [angleWeight]

theorem IsGroup.angleSum {opening closing : Lexeme} {inner : List Lexeme}
    (isGroup : IsGroup opening inner closing) (behind : List Lexeme) :
    Dialect.angleSum (opening :: (inner ++ closing :: behind)) = Dialect.angleSum behind := by
  have balanced := isGroup.nested.angleSum
  simp [isGroup.opens, isGroup.closes, angleWeight]
  omega

end Sum

theorem GroupIn.behind {front rest : List Lexeme} {lexeme : Lexeme} {span : Span}
    (group : GroupIn (front ++ lexeme :: rest) span)
    (ascending : Ascending (front ++ lexeme :: rest)) (after : lexeme.stop ≤ span.start) :
    GroupIn rest span := by
  obtain @⟨other, inner, behind, opening, closing, whole, isGroup⟩ := group
  obtain ⟨-, later, before⟩ := ascending.of_append
  rcases append_cons_cases whole with ⟨middle, -, rfl⟩ | ⟨-, rfl, -⟩ | ⟨middle, rfl, -⟩
  · exact ⟨rfl, isGroup⟩
  · have filled := later.of_cons.1
    simp at after
    omega
  · have filled := later.of_cons.1
    have order := before opening (by simp) lexeme List.mem_cons_self
    have openingFilled := ascending.filled opening (by simp)
    simp at after
    omega

theorem remaining_of_free {spans : List Span} {lexemes : List Lexeme}
    (free : ∀ span ∈ spans, ∀ lexeme ∈ lexemes, span.holds lexeme = false) :
    remaining spans lexemes = lexemes := by
  apply List.filter_eq_self.mpr
  intro lexeme membership
  rw [List.all_eq_true]
  intro span isSpan
  simp [free span isSpan lexeme membership]

theorem angleSum_remaining {spans : List Span} {header : List Lexeme} (ascending : Ascending header)
    (ordered : spans.Pairwise fun first second => first.stop ≤ second.start)
    (groups : ∀ span ∈ spans, GroupIn header span ∨ ∀ lexeme ∈ header, span.holds lexeme = false) :
    angleSum (remaining spans header) = angleSum header := by
  induction spans generalizing header with
  | nil => rw [remaining_of_free (by simp)]
  | cons span spans inductionHypothesis =>
      obtain ⟨behind, orderedRest⟩ := List.pairwise_cons.mp ordered
      obtain ⟨group, groupsRest⟩ := List.forall_mem_cons.mp groups
      rcases group with group | free
      · -- The first range takes a group out, and the later ones lie behind it.
        obtain @⟨front, inner, rest, opening, closing, rfl, isGroup⟩ := group
        obtain ⟨-, ascendingGroup, before⟩ := ascending.of_append
        obtain ⟨filled, ascendingRest, -, -⟩ := ascendingGroup.of_group
        have frontFree : ∀ other ∈ (⟨opening.start, closing.stop⟩ :: spans : List Span),
            ∀ lexeme ∈ front, other.holds lexeme = false := by
          intro other isOther lexeme inFront
          have order := before lexeme inFront opening List.mem_cons_self
          have lexemeFilled := ascending.filled lexeme (by simp [inFront])
          have start : opening.start ≤ other.start := by
            rcases List.mem_cons.mp isOther with rfl | later
            · exact Nat.le_refl _
            · exact Nat.le_trans (Nat.le_of_lt filled) (behind other later)
          exact Span.not_holds (.inl (by omega))
        have later : ∀ other ∈ spans, GroupIn rest other ∨
            ∀ lexeme ∈ rest, other.holds lexeme = false := by
          intro other isOther
          refine (groupsRest other isOther).imp ?_ ?_
          · intro alsoGroup
            have parts : front ++ opening :: (inner ++ closing :: rest) =
                (front ++ opening :: inner) ++ closing :: rest := by
              simp
            rw [parts] at alsoGroup ascending
            exact alsoGroup.behind ascending (behind other isOther)
          · intro free lexeme inRest
            exact free lexeme (by simp [inRest])
        rw [remaining_append, remaining_of_free frontFree, remaining_group ascendingGroup,
          angleSum_append, angleSum_append, inductionHypothesis ascendingRest orderedRest later,
          isGroup.angleSum]
      · have unheld : remaining (span :: spans) header = remaining spans header := by
          apply List.filter_congr
          intro lexeme membership
          simp [free lexeme membership]
        rw [unheld]
        exact inductionHypothesis ascending orderedRest groupsRest

/-- Whether two lexemes are the arrow of an array: its marks, next to each other. -/
def isArrow (first second : Lexeme) : Bool :=
  first.token = .punct '=' && second.token = .punct '>' && first.stop == second.start

def withoutArrows : List Lexeme → List Lexeme
  | first :: second :: rest =>
    if isArrow first second then withoutArrows rest else first :: withoutArrows (second :: rest)
  | rest => rest

/-- An arrow closes a bracket too much. -/
theorem withoutArrows_cases (lexemes : List Lexeme) :
    withoutArrows lexemes = lexemes ∨ angleSum lexemes < angleSum (withoutArrows lexemes) := by
  fun_induction withoutArrows lexemes with
  | case1 first second rest arrow inductionHypothesis =>
      simp only [isArrow, Bool.and_eq_true, decide_eq_true_eq] at arrow
      have arrowSum : angleSum (first :: second :: rest) = -1 + angleSum rest := by
        simp [arrow.1.1, arrow.1.2, angleWeight]
      rcases inductionHypothesis with same | less
      · exact .inr (by rw [arrowSum, same]; omega)
      · exact .inr (by omega)
  | case2 first second rest noArrow inductionHypothesis =>
      rcases inductionHypothesis with same | less
      · exact .inl (by rw [same])
      · refine .inr ?_
        rw [angleSum_cons first, angleSum_cons first]
        omega
  | case3 rest => exact .inl rfl

end AutoloadIndex.Dialect
