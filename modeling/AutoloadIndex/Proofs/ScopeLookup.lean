import Mathlib.Data.List.Induction
import AutoloadIndex.Reference

set_option autoImplicit false

/-!
The namespace of a place in a program. While symbols are collected it is a state: a namespace sets
it, and the end of a block clears it. For an alias, which is no statement any more, it is found
again by a search backwards through the scopes on record. Both give the same, so an alias belongs to
the namespace of a declaration that stands in its place.
-/

namespace AutoloadIndex

namespace Program.Statement

def span : Statement → Span
  | .scope span .. | .declaration span .. | .call span .. | .other span => span

def isNamespace : Statement → Bool
  | .scope .. => true
  | .declaration .. | .call .. | .other _ => false

def Unnested : Statement → Prop
  | .scope _ _ _ body => ∀ inner ∈ body, inner.isNamespace = false
  | .declaration .. | .call .. | .other _ => True

end Program.Statement

namespace Reference

open Program (Span Statement)

/-- Statements one behind the other, without a namespace inside of another one. -/
structure LaidOut (program : List Statement) : Prop where
  forward : ∀ statement ∈ program, statement.span.start ≤ statement.span.stop
  ordered : program.Pairwise fun first second => first.span.stop ≤ second.span.start
  unnested : ∀ statement ∈ program, statement.Unnested

section Traversal

mutual

def passingIn (offset : Nat) (scope : Option String) : Statement → Option String
  | .scope _ name _ body => passing offset (scopeName name) body
  | .declaration .. | .call .. | .other _ => scope

/-- Namespace in effect as the traversal of the statements, begun under `scope`, passes an offset:
the statements in front of it are done, and none behind it is. -/
def passing (offset : Nat) (scope : Option String) : List Statement → Option String
  | [] => scope
  | statement :: rest =>
    if offset < statement.span.start then scope
    else if offset < statement.span.stop then passingIn offset scope statement
    else passing offset (symbolsOf scope statement).2 rest

end

mutual

/-- Puts a statement at an offset in the first statement; behind it, unless that is a namespace. -/
def placeIn (offset : Nat) (new : Statement) (rest : List Statement) : Statement → List Statement
  | .scope span name braced body => .scope span name braced (place offset new body) :: rest
  | .declaration span kind names => .declaration span kind names :: new :: rest
  | .call span function literal => .call span function literal :: new :: rest
  | .other span => .other span :: new :: rest

def place (offset : Nat) (new : Statement) : List Statement → List Statement
  | [] => [new]
  | statement :: rest =>
    if offset < statement.span.start then new :: statement :: rest
    else if offset < statement.span.stop then placeIn offset new rest statement
    else statement :: place offset new rest

end

def Adds (added : List Symbol) (found grown : List Symbol × Option String) : Prop :=
  ∃ before after, found.1 = before ++ after ∧ grown.1 = before ++ added ++ after ∧
    grown.2 = found.2

variable {added : List Symbol} {found grown : List Symbol × Option String}

theorem Adds.behind (adds : Adds added found grown) (front : List Symbol) :
    Adds added (front ++ found.1, found.2) (front ++ grown.1, grown.2) := by
  obtain ⟨before, after, isFound, isGrown, sameEnd⟩ := adds
  refine ⟨front ++ before, after, ?_, ?_, sameEnd⟩
  · simp [isFound]
  · simp [isGrown]

theorem Adds.inFrontOf (adds : Adds added found grown) (behind : List Symbol)
    (last : Option String) : Adds added (found.1 ++ behind, last) (grown.1 ++ behind, last) := by
  obtain ⟨before, after, isFound, isGrown, -⟩ := adds
  refine ⟨before, after ++ behind, ?_, ?_, rfl⟩
  · simp [isFound]
  · simp [isGrown]

variable (offset : Nat) (span : Span) (kind : Kind) (names : List String)

mutual

theorem symbolsOfAll_placeIn (scope : Option String) (rest : List Statement) :
    (statement : Statement) →
      Adds (names.map fun name => ⟨kind, Name.qualify (passingIn offset scope statement) name⟩)
        (symbolsOfAll scope (statement :: rest))
        (symbolsOfAll scope (placeIn offset (.declaration span kind names) rest statement))
  | .scope _ name braced body => by
      have inBody := symbolsOfAll_place (scopeName name) body
      have sameEnd := inBody.choose_spec.choose_spec.2.2
      simp only [passingIn, placeIn, symbolsOfAll, symbolsOf, sameEnd]
      exact inBody.inFrontOf _ _
  | .declaration _ other others => ⟨others.map fun name => ⟨other, Name.qualify scope name⟩,
      (symbolsOfAll scope rest).1, by simp [passingIn, placeIn, symbolsOfAll, symbolsOf]⟩
  | .call _ function literal =>
      ⟨(symbolsOf scope (.call span function literal)).1, (symbolsOfAll scope rest).1,
        by simp [passingIn, placeIn, symbolsOfAll, symbolsOf]⟩
  | .other _ => ⟨[], (symbolsOfAll scope rest).1,
      by simp [passingIn, placeIn, symbolsOfAll, symbolsOf]⟩

/-- A declaration placed at an offset is qualified with the namespace in effect there. -/
theorem symbolsOfAll_place (scope : Option String) :
    (program : List Statement) →
      Adds (names.map fun name => ⟨kind, Name.qualify (passing offset scope program) name⟩)
        (symbolsOfAll scope program)
        (symbolsOfAll scope (place offset (.declaration span kind names) program))
  | [] => ⟨[], [], by simp [passing, place, symbolsOfAll, symbolsOf]⟩
  | statement :: rest => by
      rw [passing, place]
      split
      case isTrue =>
          exact ⟨[], (symbolsOfAll scope (statement :: rest)).1,
            by simp [symbolsOfAll, symbolsOf]⟩
      case isFalse =>
          split
          case isTrue => exact symbolsOfAll_placeIn scope rest statement
          case isFalse =>
              have later := symbolsOfAll_place (symbolsOf scope statement).2 rest
              exact later.behind (symbolsOf scope statement).1

end

end Traversal

section Lookup

/-- Namespace in effect at an offset, once a scope is known besides those before it. -/
def Scope.overrule (offset : Nat) (before : Option String) (scope : Scope) : Option String :=
  if scope.span.start ≤ offset then
    if scope.braced ∧ scope.span.stop ≤ offset then none else scope.name
  else before

/-- The search for the last scope gives what remains after a pass over all of them. -/
theorem scopeAt_eq_foldl (scopes : List Scope) (offset : Nat) :
    scopeAt scopes offset = scopes.foldl (Scope.overrule offset) none := by
  induction scopes using List.reverseRecOn with
  | nil => rfl
  | append_singleton scopes scope inductionHypothesis =>
      rw [List.foldl_append, List.foldl_cons, List.foldl_nil, ← inductionHypothesis]
      by_cases reached : scope.span.start ≤ offset <;>
        simp [scopeAt, Scope.overrule, reached]

variable {offset : Nat} {program : List Statement}

theorem foldl_overrule_of_later {scopes : List Scope} (before : Option String)
    (later : ∀ scope ∈ scopes, offset < scope.span.start) :
    scopes.foldl (Scope.overrule offset) before = before := by
  induction scopes with
  | nil => rfl
  | cons scope rest inductionHypothesis =>
      obtain ⟨isLater, restLater⟩ := List.forall_mem_cons.mp later
      rw [List.foldl_cons, Scope.overrule, if_neg (Nat.not_le.mpr isLater)]
      exact inductionHypothesis restLater

theorem scopesOfAll_flat (flat : ∀ statement ∈ program, statement.isNamespace = false) :
    scopesOfAll program = [] := by
  induction program with
  | nil => rfl
  | cons statement rest inductionHypothesis =>
      obtain ⟨isFlat, restFlat⟩ := List.forall_mem_cons.mp flat
      rw [scopesOfAll, inductionHypothesis restFlat, List.append_nil]
      cases statement with
      | scope => cases isFlat
      | declaration | call | other => rfl

theorem symbolsOfAll_flat (flat : ∀ statement ∈ program, statement.isNamespace = false)
    (scope : Option String) : (symbolsOfAll scope program).2 = scope := by
  induction program with
  | nil => rfl
  | cons statement rest inductionHypothesis =>
      obtain ⟨isFlat, restFlat⟩ := List.forall_mem_cons.mp flat
      cases statement with
      | scope => cases isFlat
      | declaration | call | other => exact inductionHypothesis restFlat

theorem passing_flat (flat : ∀ statement ∈ program, statement.isNamespace = false)
    (scope : Option String) : passing offset scope program = scope := by
  induction program with
  | nil => rfl
  | cons statement rest inductionHypothesis =>
      obtain ⟨isFlat, restFlat⟩ := List.forall_mem_cons.mp flat
      cases statement with
      | scope => cases isFlat
      | declaration | call | other =>
          simp only [passing, passingIn, symbolsOf, inductionHypothesis restFlat, ite_self]

theorem span_of_mem_scopesOf {statement : Statement} (unnested : statement.Unnested)
    {scope : Scope} (member : scope ∈ scopesOf statement) : scope.span = statement.span := by
  cases statement with
  | scope span name braced body =>
      rw [scopesOf, scopesOfAll_flat unnested, List.mem_singleton] at member
      rw [member, Statement.span]
  | declaration | call | other => cases member

theorem foldl_scopesOf {statement : Statement} (unnested : statement.Unnested)
    (started : statement.span.start ≤ offset) (before : Option String) :
    (scopesOf statement).foldl (Scope.overrule offset) before =
      if offset < statement.span.stop then passingIn offset before statement
      else (symbolsOf before statement).2 := by
  cases statement with
  | scope span name braced body =>
      rw [Statement.span] at started ⊢
      have after : (symbolsOf before (.scope span name braced body)).2 =
          if braced then none else scopeName name := by
        rw [← symbolsOfAll_flat unnested (scopeName name)]
        rfl
      rw [after, scopesOf, scopesOfAll_flat unnested, List.foldl_cons, List.foldl_nil, passingIn,
        passing_flat unnested, Scope.overrule, if_pos started]
      by_cases isOpen : offset < span.stop
      · rw [if_pos isOpen, if_neg fun closed => absurd closed.2 (Nat.not_le.mpr isOpen)]
      · simp only [Nat.le_of_not_lt isOpen, and_true, if_neg isOpen]
  | declaration | call | other =>
      rw [passingIn, symbolsOf, ite_self, scopesOf, List.foldl_nil]

theorem LaidOut.tail {statement : Statement} (laidOut : LaidOut (statement :: program)) :
    LaidOut program where
  forward other member := laidOut.forward other (List.mem_cons_of_mem _ member)
  ordered := laidOut.ordered.of_cons
  unnested other member := laidOut.unnested other (List.mem_cons_of_mem _ member)

theorem LaidOut.mem_scopes (laidOut : LaidOut program) {scope : Scope}
    (member : scope ∈ scopesOfAll program) :
    ∃ statement ∈ program, scope.span = statement.span := by
  induction program with
  | nil => cases member
  | cons statement rest inductionHypothesis =>
      rcases List.mem_append.mp member with ofFirst | ofRest
      · have unnested := laidOut.unnested statement List.mem_cons_self
        exact ⟨statement, List.mem_cons_self, span_of_mem_scopesOf unnested ofFirst⟩
      · obtain ⟨other, isLater, sameSpan⟩ := inductionHypothesis laidOut.tail ofRest
        exact ⟨other, List.mem_cons_of_mem _ isLater, sameSpan⟩

theorem LaidOut.foldl_rest {statement : Statement} (laidOut : LaidOut (statement :: program))
    (before : Option String) (notEnded : offset < statement.span.stop) :
    (scopesOfAll program).foldl (Scope.overrule offset) before = before := by
  refine foldl_overrule_of_later before fun scope member => ?_
  obtain ⟨other, isLater, sameSpan⟩ := laidOut.tail.mem_scopes member
  rw [sameSpan]
  exact Nat.lt_of_lt_of_le notEnded (List.rel_of_pairwise_cons laidOut.ordered isLater)

/-- A pass over the scopes on record follows the traversal. -/
theorem LaidOut.foldl_scopes (laidOut : LaidOut program) (before : Option String) :
    (scopesOfAll program).foldl (Scope.overrule offset) before = passing offset before program := by
  induction program generalizing before with
  | nil => rfl
  | cons statement rest inductionHypothesis =>
      have forward := laidOut.forward statement List.mem_cons_self
      have unnested := laidOut.unnested statement List.mem_cons_self
      rw [scopesOfAll, List.foldl_append, passing]
      by_cases notStarted : offset < statement.span.start
      · have untouched : (scopesOf statement).foldl (Scope.overrule offset) before = before := by
          refine foldl_overrule_of_later before fun scope member => ?_
          rw [span_of_mem_scopesOf unnested member]
          exact notStarted
        rw [if_pos notStarted, untouched]
        exact laidOut.foldl_rest before (Nat.lt_of_lt_of_le notStarted forward)
      · rw [if_neg notStarted, foldl_scopesOf unnested (Nat.le_of_not_lt notStarted)]
        by_cases isOpen : offset < statement.span.stop
        · rw [if_pos isOpen, if_pos isOpen]
          exact laidOut.foldl_rest _ isOpen
        · rw [if_neg isOpen, if_neg isOpen]
          exact inductionHypothesis laidOut.tail _

end Lookup

/-- At every offset the search finds the namespace that the traversal has in effect there, and with
that a declaration placed at the offset is qualified. -/
theorem scopeAt_placed {program : List Statement} (laidOut : LaidOut program) (offset : Nat) :
    scopeAt (scopesOfAll program) offset = passing offset none program ∧
      ∀ span kind names, ∃ before after,
        (symbolsOfAll none program).1 = before ++ after ∧
        (symbolsOfAll none (place offset (.declaration span kind names) program)).1 =
          before ++ names.map
            (fun name => ⟨kind, Name.qualify (scopeAt (scopesOfAll program) offset) name⟩) ++
          after := by
  have sameNamespace : scopeAt (scopesOfAll program) offset = passing offset none program := by
    rw [scopeAt_eq_foldl, laidOut.foldl_scopes]
  refine ⟨sameNamespace, fun span kind names => ?_⟩
  obtain ⟨before, after, isFound, isGrown, -⟩ :=
    symbolsOfAll_place offset span kind names none program
  rw [sameNamespace]
  exact ⟨before, after, isFound, isGrown⟩

/-- Outline of `<?php namespace A; class T {} namespace B { class T {} }  namespace { class T {} }`
with line ends for spaces. -/
def mixedNamespaces : List Statement := [
  .other ⟨0, 5⟩,
  .scope ⟨6, 30⟩ (some "A") false [.declaration ⟨19, 29⟩ .classLike ["T"]],
  .scope ⟨30, 56⟩ (some "B") true [.declaration ⟨44, 54⟩ .classLike ["T"]],
  .scope ⟨58, 82⟩ none true [.declaration ⟨70, 80⟩ .classLike ["T"]]]

theorem scopeAt_betweenBlocks :
    LaidOut mixedNamespaces ∧
      scopeAt (scopesOfAll mixedNamespaces) 57 = none ∧
      ∃ before after,
        (symbolsOfAll none mixedNamespaces).1 = before ++ after ∧
        (symbolsOfAll none
            (place 57 (.declaration ⟨57, 57⟩ .classLike ["Id"]) mixedNamespaces)).1 =
          before ++ ["Id"].map (fun name => ⟨.classLike, Name.qualify
            (scopeAt (scopesOfAll mixedNamespaces) 57) name⟩) ++ after := by
  have laidOut : LaidOut mixedNamespaces := by
    constructor
    · decide
    · decide
    · simp [mixedNamespaces, Statement.Unnested, Statement.isNamespace]
  have found := scopeAt_placed laidOut 57
  exact ⟨laidOut, found.1.trans rfl, found.2 ⟨57, 57⟩ .classLike ["Id"]⟩

end Reference

end AutoloadIndex
