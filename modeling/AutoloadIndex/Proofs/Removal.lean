import Mathlib.Data.Option.Basic
import AutoloadIndex.Dialect.Lowering

set_option autoImplicit false

/-!
What lowering removes. Every range it blanks runs from the start of a lexeme to the end of one, and
every alias it takes out is declared by a keyword of the source, in the order of the keywords.
-/

namespace AutoloadIndex

def Token.declaresType : Token → Bool
  | ident word => Keyword.ofWord? word = some .typeDecl
  | _ => false

theorem Keyword.word_of_typeDecl {word : String} (isType : ofLower? word = some .typeDecl) :
    word = "type" ∨ word = "newtype" := by
  unfold ofLower? at isType
  split at isType <;> first | exact .inl rfl | exact .inr rfl | cases isType

theorem Token.word_of_declaresType {token : Token} (declares : token.declaresType) :
    ∃ word, token = .ident word ∧
      Text.lowerAscii (Text.trimStart '\\' word) ∈ ["type".toList, "newtype".toList] := by
  cases token with
  | ident word =>
      refine ⟨word, rfl, ?_⟩
      have isType : Keyword.ofWord? word = some .typeDecl := of_decide_eq_true declares
      rw [List.mem_cons, List.mem_singleton]
      rcases Keyword.word_of_typeDecl isType with spelled | spelled
      · exact .inl (by rw [← spelled, String.toList_ofList])
      · exact .inr (by rw [← spelled, String.toList_ofList])
  | _ => cases declares

namespace Dialect

open Lexeme (ahead nameAhead punctAhead)

/-- A range may start with a name, with an angle bracket, or behind a name. -/
inductive Opens (lexemes : List Lexeme) : Nat → Prop where
  | name {i : Nat} (isName : (nameAhead lexemes i).isSome) : Opens lexemes i
  | angle {i : Nat} (isAngle : punctAhead ['<'] lexemes i) : Opens lexemes i
  | behind {i : Nat} (isName : (nameAhead lexemes i).isSome) : Opens lexemes (i + 1)

inductive Cut (lexemes : List Lexeme) : Span → Prop where
  | mk {i j : Nat} {first last : Lexeme} (order : i ≤ j) (isFirst : lexemes[i]? = some first)
      (isLast : lexemes[j]? = some last) (opens : Opens lexemes i) :
      Cut lexemes ⟨first.start, last.stop⟩

theorem nameAhead_drop (lexemes : List Lexeme) (n i : Nat) :
    nameAhead (lexemes.drop n) i = nameAhead lexemes (n + i) := by
  simp [nameAhead, ahead]

theorem punctAhead_drop (marks : List Char) (lexemes : List Lexeme) (n i : Nat) :
    punctAhead marks (lexemes.drop n) i = punctAhead marks lexemes (n + i) := by
  simp [punctAhead, ahead]

theorem Opens.of_drop {lexemes : List Lexeme} {n i : Nat} (opens : Opens (lexemes.drop n) i) :
    Opens lexemes (n + i) := by
  cases opens with
  | name isName =>
      rw [nameAhead_drop] at isName
      exact .name isName
  | angle isAngle =>
      rw [punctAhead_drop] at isAngle
      exact .angle isAngle
  | behind isName =>
      rw [nameAhead_drop] at isName
      exact .behind isName

theorem Cut.of_drop {lexemes : List Lexeme} {n : Nat} {span : Span}
    (cut : Cut (lexemes.drop n) span) : Cut lexemes span := by
  obtain ⟨order, isFirst, isLast, opens⟩ := cut
  rw [List.getElem?_drop] at isFirst isLast
  exact ⟨Nat.add_le_add_left order n, isFirst, isLast, opens.of_drop⟩

theorem Cut.cons {rest : List Lexeme} {span : Span} (cut : Cut rest span) (lexeme : Lexeme) :
    Cut (lexeme :: rest) span := by
  apply Cut.of_drop (n := 1)
  exact cut

theorem cut_of_mem_spanOf {lexemes : List Lexeme} {i j : Nat} {span : Span} (order : i ≤ j)
    (opens : Opens lexemes i) (membership : span ∈ spanOf lexemes i j) : Cut lexemes span := by
  unfold spanOf at membership
  split at membership
  case h_1 first last isFirst isLast =>
      rw [List.mem_singleton] at membership
      subst membership
      exact ⟨order, isFirst, isLast, opens⟩
  case h_2 => simp at membership

theorem headerGenerics_cut (lexemes : List Lexeme) (skip : Nat) :
    ∀ span ∈ headerGenerics skip lexemes, Cut lexemes span := by
  induction lexemes generalizing skip with
  | nil => simp [headerGenerics]
  | cons lexeme rest inductionHypothesis =>
      have later : ∀ skip, ∀ span ∈ headerGenerics skip rest, Cut (lexeme :: rest) span := by
        intro skip span membership
        exact (inductionHypothesis skip span membership).cons lexeme
      cases skip with
      | succ skip => exact later skip
      | zero =>
          intro span membership
          rw [headerGenerics] at membership
          split at membership
          · simp at membership
          · split at membership
            case isTrue isAngle =>
                split at membership
                case h_1 close isClose =>
                    rcases List.mem_append.mp membership with found | behind
                    · apply cut_of_mem_spanOf (Nat.zero_le close) _ found
                      exact .angle (by simp [punctAhead, ahead, isAngle, Token.isPunct])
                    · exact later close span behind
                case h_2 => simp at membership
            case isFalse => exact later 0 span membership

theorem functionGenerics_cut (rest : List Lexeme) :
    ∀ span ∈ functionGenerics rest, Cut rest span := by
  intro span membership
  obtain ⟨n, isRest⟩ :
      ∃ n, (if punctAhead ['&'] rest 0 then rest.tail else rest) = rest.drop n := by
    split
    · exact ⟨1, List.drop_one.symm⟩
    · exact ⟨0, rfl⟩
  simp only [functionGenerics, isRest] at membership
  split at membership
  case isTrue header =>
      split at membership
      case h_1 close isClose =>
          rw [← List.drop_one, List.drop_drop] at membership
          apply Cut.of_drop
          apply cut_of_mem_spanOf (Nat.zero_le close) _ membership
          apply Opens.angle
          rw [Bool.and_eq_true, punctAhead_drop] at header
          rw [punctAhead_drop]
          exact header.2
      case h_2 => simp at membership
  case isFalse => simp at membership

theorem enumBody_cut (rest : List Lexeme) : ∀ span ∈ enumBody rest, Cut rest span := by
  intro span membership
  unfold enumBody at membership
  extract_lets found at membership
  cases isFound : found with
  | none => simp [isFound] at membership
  | some spans =>
      rw [isFound, Option.getD_some] at membership
      simp only [found, Option.bind_eq_bind, Option.bind_eq_some_iff, Option.guard_eq_some',
        Option.pure_def, Option.some.injEq, Bool.and_eq_true] at isFound
      obtain ⟨name, isName, header, -, -, ⟨isMember, -⟩, close, -, rfl⟩ := isFound
      rcases List.mem_append.mp membership with inHeader | inBody
      · split at inHeader
        case isTrue typed =>
            exact cut_of_mem_spanOf typed (.behind (Option.isSome_of_eq_some isName)) inHeader
        case isFalse => simp at inHeader
      · split at inBody
        case isTrue filled =>
            exact (cut_of_mem_spanOf (Nat.le_sub_one_of_lt filled) (.name isMember) inBody).of_drop
        case isFalse => simp at inBody

/-- What the statement of the first lexeme removes: at most one alias, declared by its keyword. -/
structure FoundAt (lexeme : Lexeme) (rest : List Lexeme) (found : Removal) : Prop where
  cuts : ∀ span ∈ found.blanks, Cut (lexeme :: rest) span
  aliases : found.aliases = [] ∨
    lexeme.token.declaresType ∧ ∃ name, found.aliases = [⟨name, lexeme.start⟩]

theorem FoundAt.nothing (lexeme : Lexeme) (rest : List Lexeme) : FoundAt lexeme rest {} := by
  refine ⟨?_, .inl rfl⟩
  intro span membership
  cases membership

theorem FoundAt.of_rest {rest : List Lexeme} {spans : List Span}
    (cuts : ∀ span ∈ spans, Cut rest span) (lexeme : Lexeme) :
    FoundAt lexeme rest { blanks := spans } := by
  refine ⟨?_, .inl rfl⟩
  intro span membership
  exact (cuts span membership).cons lexeme

theorem typeAlias_found {lexeme : Lexeme} {rest : List Lexeme} {found : Removal} {skip : Nat}
    (declares : lexeme.token.declaresType) (isFound : typeAlias lexeme rest = some (found, skip)) :
    FoundAt lexeme rest found := by
  simp only [typeAlias, Option.bind_eq_bind, Option.bind_eq_some_iff, Option.guard_eq_some',
    Option.pure_def, Option.some.injEq, Prod.mk.injEq] at isFound
  obtain ⟨name, -, -, -, last, -, rfl, rfl⟩ := isFound
  constructor
  · intro span membership
    apply cut_of_mem_spanOf (Nat.zero_le last) _ membership
    apply Opens.name
    cases isWord : lexeme.token with
    | ident word => simp [nameAhead, ahead, isWord, Token.name?]
    | _ => simp [isWord, Token.declaresType] at declares
  · exact .inr ⟨declares, name, rfl⟩

theorem statement_found (nesting : Nesting) {keyword : Keyword} {lexeme : Lexeme} {word : List Char}
    (isWord : lexeme.token = .ident word) (isKeyword : Keyword.ofWord? word = some keyword)
    (rest : List Lexeme) : FoundAt lexeme rest (statement nesting keyword lexeme rest).1 := by
  cases keyword with
  | typeDecl =>
      have declares : lexeme.token.declaresType := by
        simp [isWord, Token.declaresType, isKeyword]
      unfold statement
      cases isAlias : typeAlias lexeme rest with
      | none => exact .nothing lexeme rest
      | some result => exact typeAlias_found declares isAlias
  | classDecl => exact .of_rest (headerGenerics_cut rest 0) lexeme
  | interfaceDecl => exact .of_rest (headerGenerics_cut rest 0) lexeme
  | traitDecl => exact .of_rest (headerGenerics_cut rest 0) lexeme
  | functionDecl => exact .of_rest (functionGenerics_cut rest) lexeme
  | enumDecl => exact .of_rest (enumBody_cut rest) lexeme
  | haltCompiler => exact .nothing lexeme rest
  | namespaceScope => exact .nothing lexeme rest
  | constDecl => exact .nothing lexeme rest
  | defineCall => exact .nothing lexeme rest

structure TakenFrom (lexemes : List Lexeme) (removed : Removal) : Prop where
  cuts : ∀ span ∈ removed.blanks, Cut lexemes span
  aliases : List.Sublist (removed.aliases.map TypeAlias.offset)
    ((lexemes.filter fun lexeme => lexeme.token.declaresType).map Lexeme.start)

theorem TakenFrom.cons {rest : List Lexeme} {later : Removal} (isLater : TakenFrom rest later)
    (lexeme : Lexeme) : TakenFrom (lexeme :: rest) later := by
  constructor
  · intro span membership
    exact (isLater.cuts span membership).cons lexeme
  · apply isLater.aliases.trans
    apply List.Sublist.map
    exact (List.sublist_cons_self lexeme rest).filter _

theorem TakenFrom.append {lexeme : Lexeme} {rest : List Lexeme} {found later : Removal}
    (isFound : FoundAt lexeme rest found) (isLater : TakenFrom rest later) :
    TakenFrom (lexeme :: rest) (found ++ later) := by
  constructor
  · intro span membership
    rcases List.mem_append.mp membership with inFound | inLater
    · exact isFound.cuts span inFound
    · exact (isLater.cons lexeme).cuts span inLater
  · have parts : (found ++ later).aliases = found.aliases ++ later.aliases := rfl
    rw [parts]
    rcases isFound.aliases with none | ⟨declares, name, one⟩
    · rw [none]
      exact (isLater.cons lexeme).aliases
    · rw [one, List.filter_cons, if_pos declares]
      exact isLater.aliases.cons_cons lexeme.start

theorem removal_taken (lexemes : List Lexeme) (nesting : Nesting) (previous : Option Token)
    (skip : Nat) : TakenFrom lexemes (removal nesting previous skip lexemes) := by
  induction lexemes generalizing nesting previous skip with
  | nil => exact ⟨by simp [removal], List.nil_sublist _⟩
  | cons lexeme rest inductionHypothesis =>
      cases skip with
      | succ skip => exact (inductionHypothesis _ _ skip).cons lexeme
      | zero =>
          rw [removal]
          cases isToken : lexeme.token with
          | ident word =>
              simp only
              split
              case h_1 keyword isKeyword =>
                  have spelled : Keyword.ofWord? word = some keyword := by
                    split at isKeyword
                    · exact isKeyword
                    · cases isKeyword
                  exact .append (statement_found nesting isToken spelled rest)
                    (inductionHypothesis _ _ _)
              case h_2 => exact (inductionHypothesis _ _ 0).cons lexeme
          | _ => exact (inductionHypothesis _ _ 0).cons lexeme

end Dialect

end AutoloadIndex
