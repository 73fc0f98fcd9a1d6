import Mathlib.Data.List.Chain
import AutoloadIndex.Proofs.ScanTrace

set_option autoImplicit false

/-!
What the scan reads of its lexemes: the tokens, and where an element class is declared also which
lexemes are joined. Places count for nothing else but the line that a fault is reported on.
-/

namespace AutoloadIndex.FactScan

open Lexeme (ahead nameAhead punctAhead wordAhead opensAlias)

def declaresElement (token : Token) (rest : List Lexeme) : Bool :=
  token.name?.bind Keyword.ofWord? = some .classDecl && punctAhead [':'] rest 0

/-- The same tokens at other places. Element names, which depend on places, are the same. -/
inductive Restated : List Lexeme → List Lexeme → Prop where
  | nil : Restated [] []
  | cons {first second : Lexeme} {rest others : List Lexeme} (same : first.token = second.token)
      (element : declaresElement first.token rest →
        State.elementName rest = State.elementName others)
      (later : Restated rest others) : Restated (first :: rest) (second :: others)

structure State.Alike (first second : State) : Prop where
  nesting : first.nesting = second.nesting
  scope : first.scope = second.scope
  items : first.items = second.items
  previous : first.previous.map Lexeme.token = second.previous.map Lexeme.token

theorem State.Alike.refl (state : State) : state.Alike state := ⟨rfl, rfl, rfl, rfl⟩

theorem Restated.tokens {lexemes others : List Lexeme} (restated : Restated lexemes others) :
    lexemes.map Lexeme.token = others.map Lexeme.token := by
  induction restated with
  | nil => rfl
  | cons same element later inductionHypothesis =>
      rw [List.map_cons, List.map_cons, same, inductionHypothesis]

/-- Each lexeme with whether the next one follows it without a gap. -/
def joints : List Lexeme → List (Token × Bool)
  | [] => []
  | lexeme :: rest => (lexeme.token, rest.head?.any (·.start = lexeme.stop)) :: joints rest

theorem elementText_of_joints {first second : Lexeme} {rest others : List Lexeme}
    (same : joints (first :: rest) = joints (second :: others)) :
    State.elementText first.stop rest = State.elementText second.stop others := by
  induction rest generalizing first second others with
  | nil =>
      cases others with
      | nil => rfl
      | cons other others => simp [joints] at same
  | cons lexeme rest inductionHypothesis =>
      cases others with
      | nil => simp [joints] at same
      | cons other others =>
          have later := (List.cons.inj same).2
          have adjacent : (lexeme.start = first.stop) = (other.start = second.stop) := by
            have joined := congrArg Prod.snd (List.cons.inj same).1
            simpa using joined
          have token : lexeme.token = other.token := congrArg Prod.fst (List.cons.inj later).1
          simp only [State.elementText, ne_eq, adjacent, token, inductionHypothesis later]

/-- Lexemes that are joined in the same places can be moved. -/
theorem restated_of_joints {lexemes others : List Lexeme} (same : joints lexemes = joints others) :
    Restated lexemes others := by
  induction lexemes generalizing others with
  | nil =>
      cases others with
      | nil => exact .nil
      | cons other others => simp [joints] at same
  | cons first rest inductionHypothesis =>
      cases others with
      | nil => simp [joints] at same
      | cons second others =>
          have later := (List.cons.inj same).2
          refine .cons (congrArg Prod.fst (List.cons.inj same).1) (fun _ => ?_)
            (inductionHypothesis later)
          cases rest <;> cases others <;> try cases later
          · rfl
          · simp only [State.elementName, elementText_of_joints later]

/-- No keyword of a class has a colon behind it, so that no class is named after an element. -/
def Elementless (tokens : List Token) : Prop :=
  tokens.IsChain fun first second =>
    ¬ (first.name?.bind Keyword.ofWord? = some .classDecl ∧ second = .punct ':')

instance (tokens : List Token) : Decidable (Elementless tokens) :=
  inferInstanceAs (Decidable (List.IsChain _ tokens))

theorem restated_of_tokens {lexemes others : List Lexeme}
    (plain : Elementless (lexemes.map Lexeme.token))
    (same : lexemes.map Lexeme.token = others.map Lexeme.token) : Restated lexemes others := by
  induction lexemes generalizing others with
  | nil =>
      cases List.map_eq_nil_iff.mp same.symm
      exact .nil
  | cons first rest inductionHypothesis =>
      obtain ⟨second, others, rfl, token, tokens⟩ := List.map_eq_cons_iff.mp same.symm
      refine .cons token.symm (fun declares => ?_) (inductionHypothesis plain.tail tokens.symm)
      cases rest with
      | nil => simp [declaresElement, punctAhead, ahead] at declares
      | cons colon rest =>
          have apart := (List.isChain_cons_cons.mp plain).1
          simp only [declaresElement, Bool.and_eq_true, decide_eq_true_eq] at declares
          refine absurd ⟨declares.1, ?_⟩ apart
          cases isColon : colon.token <;>
            simp_all [punctAhead, ahead, Token.isPunct]

section Lookahead

variable {rest others : List Lexeme} (same : rest.map Lexeme.token = others.map Lexeme.token)

include same

theorem ahead_restated (n : Nat) : ahead rest n = ahead others n := by
  rw [ahead_of_spelled same, ahead_of_spelled rfl]

theorem nameAhead_restated (n : Nat) : nameAhead rest n = nameAhead others n :=
  congrArg (·.bind Token.name?) (ahead_restated same n)

theorem punctAhead_restated (marks : List Char) (n : Nat) :
    punctAhead marks rest n = punctAhead marks others n :=
  congrArg (·.any (Token.isPunct marks)) (ahead_restated same n)

theorem wordAhead_restated (word : String) (n : Nat) :
    wordAhead word rest n = wordAhead word others n :=
  congrArg (·.any (Token.isWord word)) (ahead_restated same n)

namespace State

theorem functionName_restated : functionName rest = functionName others := by
  have behind : rest.tail.map Lexeme.token = others.tail.map Lexeme.token := by
    rw [List.map_tail, List.map_tail, same]
  unfold functionName
  rw [punctAhead_restated same]
  split
  · simp only [punctAhead_restated behind, nameAhead_restated behind]
  · simp only [punctAhead_restated same, nameAhead_restated same]

/-- What a keyword declares depends on the tokens behind it, and in an element class on its name. -/
theorem declared_restated {first second : State} (scope : first.scope = second.scope)
    {keyword : Keyword} (element : keyword = .classDecl → punctAhead [':'] rest 0 →
      elementName rest = elementName others) :
    first.declared keyword rest = second.declared keyword others := by
  have qualified : ∀ kind name, first.qualified kind name = second.qualified kind name := by
    intro kind name
    rw [State.qualified, scope]
    rfl
  have sameQualified : ∀ kind, first.qualified kind = second.qualified kind :=
    fun kind => funext (qualified kind)
  have className : className rest = className others := by
    simp only [State.className, wordAhead_restated same, nameAhead_restated same]
  cases keyword with
  | classDecl =>
      simp only [declared, ← punctAhead_restated same, sameQualified, className]
      split
      case isTrue colon => rw [element rfl colon]
      case isFalse => rfl
  | interfaceDecl => simp only [declared, sameQualified, className]
  | traitDecl => simp only [declared, sameQualified, className]
  | enumDecl =>
      simp only [declared, enumName, sameQualified, punctAhead_restated same,
        wordAhead_restated same, nameAhead_restated same]
  | functionDecl => simp only [declared, sameQualified, functionName_restated same]
  | typeDecl =>
      have opens : opensAlias rest = opensAlias others := by
        simp only [opensAlias, punctAhead_restated same, wordAhead_restated same]
      simp only [declared, aliasName, sameQualified, opens, nameAhead_restated same]
  | defineCall =>
      simp only [declared, definedName, ahead_restated same, punctAhead_restated same]
  | _ => rfl

theorem enter_restated {first second : State} (alike : first.Alike second) (keyword : Keyword) :
    (first.enter keyword rest).Alike (second.enter keyword others) := by
  obtain ⟨nesting, scope, items, previous⟩ := alike
  cases keyword with
  | namespaceScope =>
      simp only [enter, inNamespace, nameAhead_restated same, punctAhead_restated same]
      split
      · split
        · exact ⟨nesting, rfl, items, previous⟩
        · split
          · exact ⟨congrArg Nesting.expectScope nesting, rfl, items, previous⟩
          · exact ⟨nesting, scope, items, previous⟩
      · split
        · exact ⟨congrArg Nesting.expectScope nesting, rfl, items, previous⟩
        · exact ⟨nesting, scope, items, previous⟩
  | constDecl => exact ⟨nesting, scope, rfl, previous⟩
  | _ => exact ⟨nesting, scope, items, previous⟩

end State

end Lookahead

namespace State

variable {first second : State}

theorem Alike.behind (alike : first.Alike second) {lexeme other : Lexeme}
    (same : lexeme.token = other.token) :
    Alike { first with previous := some lexeme } { second with previous := some other } :=
  ⟨alike.nesting, alike.scope, alike.items, congrArg some same⟩

theorem Alike.keyword? (alike : first.Alike second) (token : Token) :
    first.keyword? token = second.keyword? token := by
  rw [keyword?_eq, keyword?_eq, alike.nesting, alike.previous]

theorem Alike.nest (alike : first.Alike second) {lexeme other : Lexeme}
    (same : lexeme.token = other.token) :
    (∃ fault fault', first.nest lexeme = .error fault ∧ second.nest other = .error fault') ∨
      ∃ next next', first.nest lexeme = .ok next ∧ second.nest other = .ok next' ∧
        next.Alike next' := by
  obtain ⟨nesting, scope, items, previous⟩ := alike
  unfold State.nest
  rw [same, nesting]
  split
  · exact .inr ⟨_, _, rfl, rfl, rfl, scope, items, previous⟩
  · split
    · split
      · exact .inr ⟨_, _, rfl, rfl, rfl, rfl, items, previous⟩
      · exact .inr ⟨_, _, rfl, rfl, rfl, scope, items, previous⟩
      · exact .inl ⟨_, _, rfl, rfl⟩
    · exact .inr ⟨_, _, rfl, rfl, nesting, scope, items, previous⟩

end State

theorem toOption_map (found : List Symbol) (result : Except BraceFault (List Symbol)) :
    (result.map (found ++ ·)).toOption = result.toOption.map (found ++ ·) := by
  cases result <;> rfl

theorem ok_iff_of_toOption {result other : Except BraceFault (List Symbol)}
    (same : result.toOption = other.toOption) (found : List Symbol) :
    result = .ok found ↔ other = .ok found := by
  cases result <;> cases other <;> simp_all [Except.toOption]

/-- The scan finds the same in lexemes that say the same, or fails in both. -/
theorem scan_restated {lexemes others : List Lexeme} (restated : Restated lexemes others)
    {first second : State} (alike : first.Alike second) :
    (scan first lexemes).toOption = (scan second others).toOption := by
  induction restated generalizing first second with
  | nil =>
      simp only [scan, alike.nesting]
      split <;> rfl
  | @cons lexeme other rest others same element later inductionHypothesis =>
      cases reading : first.items with
      | some items =>
          rw [scan_items reading, scan_items (alike.items.symm.trans reading), toOption_map,
            toOption_map, same]
          have qualified : first.qualified .constant = second.qualified .constant := by
            funext name
            rw [State.qualified, alike.scope]
            rfl
          rw [qualified]
          exact congrArg _ (inductionHypothesis
            ⟨alike.nesting, alike.scope, rfl, congrArg some same⟩)
      | none =>
          have alsoReading := alike.items.symm.trans reading
          have sameKeyword : first.keyword? lexeme.token = second.keyword? other.token := by
            rw [alike.keyword?, same]
          cases isKeyword : first.keyword? lexeme.token with
          | some keyword =>
              have alsoKeyword := sameKeyword.symm.trans isKeyword
              by_cases halts : keyword = .haltCompiler
              · subst halts
                rw [scan, scan, reading, alsoReading]
                simp only [isKeyword, alsoKeyword]
              · rw [scan_keyword _ reading isKeyword halts,
                  scan_keyword _ alsoReading alsoKeyword halts, toOption_map, toOption_map]
                have declared : first.declared keyword rest = second.declared keyword others := by
                  refine State.declared_restated later.tokens alike.scope ?_
                  rintro rfl colon
                  obtain ⟨-, -, word, isWord, spells⟩ := State.keyword?_cases isKeyword
                  refine element ?_
                  simp [declaresElement, isWord, Token.name?, spells, colon]
                rw [declared]
                exact congrArg _ (inductionHypothesis
                  ((State.enter_restated later.tokens alike keyword).behind same))
          | none =>
              have alsoKeyword := sameKeyword.symm.trans isKeyword
              rcases alike.nest same with ⟨fault, fault', failed, alsoFailed⟩ |
                ⟨next, next', nested, alsoNested, nextAlike⟩
              · rw [scan, scan, reading, alsoReading]
                simp only [isKeyword, alsoKeyword, failed, alsoFailed]
                rfl
              · rw [scan_step _ reading isKeyword nested,
                  scan_step _ alsoReading alsoKeyword alsoNested]
                exact inductionHypothesis (nextAlike.behind same)

end AutoloadIndex.FactScan
