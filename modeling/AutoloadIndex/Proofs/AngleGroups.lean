import AutoloadIndex.Proofs.DeclarationGrammar
import AutoloadIndex.Proofs.Relexing
import AutoloadIndex.Proofs.Removal

set_option autoImplicit false

/-!
Groups of angle brackets. The generic parameters of a header are its outermost groups, if its
brackets are nested, and every other group of the header lies inside of one of them.
-/

namespace AutoloadIndex

namespace FactScan.Brackets

variable {brackets : Brackets} {depth outer : Nat} {token : Token} {first second : List Token}

def Allows (brackets : Brackets) (depth : Nat) (token : Token) : Prop :=
  token.isPunct brackets.opening ∨ ¬ token.isPunct brackets.closing ∨ 0 < depth

theorem step_add (allowed : brackets.Allows depth token) (outer : Nat) :
    brackets.step (depth + outer) token = brackets.step depth token + outer := by
  unfold Allows at allowed
  unfold step
  grind

theorem Closes.behind (closes : brackets.Closes depth (first ++ second)) :
    ∃ inner, brackets.Closes inner second := by
  induction first generalizing depth with
  | nil => exact ⟨depth, closes⟩
  | cons token rest inductionHypothesis => exact inductionHypothesis closes.2

theorem Closes.le_of_append (closes : brackets.Closes depth (first ++ second))
    (front : brackets.Closes outer first) : outer ≤ depth := by
  induction first generalizing depth outer with
  | nil =>
      obtain rfl : outer = 0 := front
      exact Nat.zero_le depth
  | cons token rest inductionHypothesis =>
      have less := inductionHypothesis closes.2 front.2
      rcases Nat.lt_or_ge depth outer with deeper | least
      · obtain ⟨more, rfl⟩ := Nat.exists_eq_add_of_le (Nat.le_of_lt deeper)
        rw [step_add closes.1] at less
        omega
      · exact least

def angles : Brackets := ⟨['<'], ['>']⟩

theorem angles_opening : angles.Closes depth (.punct '<' :: second) ↔
    angles.Closes (depth + 1) second :=
  ⟨And.right, fun closes => ⟨.inl rfl, closes⟩⟩

theorem angles_cases (depth : Nat) (token : Token) :
    angles.Allows depth token ∨ token = .punct '>' ∧ depth = 0 := by
  by_cases closes : token = .punct '>'
  · rcases Nat.eq_zero_or_pos depth with outside | inside
    · exact .inr ⟨closes, outside⟩
    · exact .inl (.inr (.inr inside))
  · refine .inl (.inr (.inl ?_))
    cases token with
    | punct mark => simpa [angles, Token.isPunct] using closes
    | _ => simp [Token.isPunct]

end FactScan.Brackets

open FactScan (Brackets)

theorem append_cons_cases {α : Type} {front back other behind : List α} {x y : α}
    (whole : front ++ x :: back = other ++ y :: behind) :
    (∃ middle, other = front ++ x :: middle ∧ back = middle ++ y :: behind) ∨
      (front = other ∧ x = y ∧ back = behind) ∨
      ∃ middle, front = other ++ y :: middle ∧ behind = middle ++ x :: back := by
  rcases List.append_eq_append_iff.mp whole with ⟨middle, rfl, later⟩ | ⟨middle, rfl, later⟩
  · cases middle with
    | nil =>
        obtain ⟨rfl, rfl⟩ := List.cons.inj later
        exact .inr (.inl ⟨by simp, rfl, rfl⟩)
    | cons z middle =>
        obtain ⟨rfl, rfl⟩ := List.cons.inj later
        exact .inl ⟨middle, rfl, rfl⟩
  · cases middle with
    | nil =>
        obtain ⟨rfl, rfl⟩ := List.cons.inj later
        exact .inr (.inl ⟨by simp, rfl, rfl⟩)
    | cons z middle =>
        obtain ⟨rfl, rfl⟩ := List.cons.inj later
        exact .inr (.inr ⟨middle, rfl, rfl⟩)

namespace Dialect

open Lexeme (closingAngle matchingAngle)

def Undivided (lexemes : List Lexeme) : Prop :=
  ∀ lexeme ∈ lexemes, lexeme.token.isPunct ['{', '}', ';'] = false

instance (lexemes : List Lexeme) : Decidable (Undivided lexemes) :=
  inferInstanceAs (Decidable (∀ lexeme ∈ lexemes, _))

theorem undivided_cons {lexeme : Lexeme} {rest : List Lexeme} :
    Undivided (lexeme :: rest) ↔
      lexeme.token.isPunct ['{', '}', ';'] = false ∧ Undivided rest :=
  List.forall_mem_cons

theorem undivided_append {first second : List Lexeme} :
    Undivided (first ++ second) ↔ Undivided first ∧ Undivided second :=
  List.forall_mem_append

/-- Lexemes whose angle brackets close from a depth to the outside. -/
def Nested (depth : Nat) (lexemes : List Lexeme) : Prop :=
  Brackets.angles.Closes depth (lexemes.map Lexeme.token)

instance (depth : Nat) (lexemes : List Lexeme) : Decidable (Nested depth lexemes) :=
  Brackets.decidableCloses _ _ _

/-- The lexemes outside of all angle brackets, from a place at some depth on. -/
def outsideAngles (depth : Nat) : List Lexeme → List Lexeme
  | [] => []
  | lexeme :: rest =>
    let later := outsideAngles (Brackets.angles.step depth lexeme.token) rest
    if depth = 0 ∧ lexeme.token ≠ .punct '<' then lexeme :: later else later

structure IsGroup (opening : Lexeme) (inner : List Lexeme) (closing : Lexeme) : Prop where
  opens : opening.token = .punct '<'
  closes : closing.token = .punct '>'
  nested : Nested 0 inner
  undivided : Undivided inner

inductive GroupIn (lexemes : List Lexeme) : Span → Prop where
  | mk {front inner behind : List Lexeme} {opening closing : Lexeme}
      (whole : lexemes = front ++ opening :: (inner ++ closing :: behind))
      (isGroup : IsGroup opening inner closing) : GroupIn lexemes ⟨opening.start, closing.stop⟩

theorem GroupIn.append {lexemes : List Lexeme} {span : Span} (group : GroupIn lexemes span)
    (front : List Lexeme) : GroupIn (front ++ lexemes) span := by
  obtain @⟨before, inner, behind, opening, closing, whole, isGroup⟩ := group
  exact ⟨by rw [whole, ← List.append_assoc], isGroup⟩

theorem GroupIn.ends {lexemes : List Lexeme} {span : Span} (group : GroupIn lexemes span) :
    (∃ first ∈ lexemes, first.start = span.start) ∧ ∃ last ∈ lexemes, last.stop = span.stop := by
  obtain @⟨before, inner, behind, opening, closing, whole, isGroup⟩ := group
  exact ⟨⟨opening, by simp [whole], rfl⟩, closing, by simp [whole], rfl⟩

section Search

variable {depth : Nat} {lexeme opening closing : Lexeme} {inner lexemes : List Lexeme} {close : Nat}

theorem closingAngle_last (closes : lexeme.token = .punct '>') (rest : List Lexeme) :
    closingAngle 1 (lexeme :: rest) = some 0 := by
  simp [closingAngle, closes]

theorem closingAngle_divided (divided : lexeme.token.isPunct ['{', '}', ';'])
    (rest : List Lexeme) : closingAngle depth (lexeme :: rest) = none := by
  cases isToken : lexeme.token with
  | punct mark =>
      have isMark : mark = '{' ∨ mark = '}' ∨ mark = ';' := by
        simpa [isToken, Token.isPunct] using divided
      rcases isMark with rfl | rfl | rfl <;> simp [closingAngle, isToken, Token.isPunct]
  | _ => simp [isToken, Token.isPunct] at divided

theorem closingAngle_next (allowed : Brackets.angles.Allows depth lexeme.token)
    (plain : lexeme.token.isPunct ['{', '}', ';'] = false) (rest : List Lexeme) :
    closingAngle (depth + 1) (lexeme :: rest) =
      (closingAngle (Brackets.angles.step depth lexeme.token + 1) rest).map (· + 1) := by
  cases isToken : lexeme.token with
  | punct mark =>
      rw [isToken] at allowed plain
      by_cases opens : mark = '<'
      · subst opens
        simp [closingAngle, isToken, Brackets.step, Brackets.angles, Token.isPunct]
      by_cases closes : mark = '>'
      · subst closes
        cases depth with
        | zero => simp [Brackets.Allows, Brackets.angles, Token.isPunct] at allowed
        | succ depth => simp [closingAngle, isToken, Brackets.step, Brackets.angles, Token.isPunct]
      · simp_all [closingAngle, Brackets.step, Brackets.angles, Token.isPunct]
  | _ => simp [closingAngle, isToken, Brackets.step, Token.isPunct]

/-- The search for a closing bracket comes to it past nested groups. -/
theorem closingAngle_cases (found : closingAngle (depth + 1) lexemes = some close) :
    ∃ inner closing behind, lexemes = inner ++ closing :: behind ∧ inner.length = close ∧
      closing.token = .punct '>' ∧ Nested depth inner ∧ Undivided inner := by
  induction lexemes generalizing depth close with
  | nil => simp [closingAngle] at found
  | cons lexeme rest inductionHypothesis =>
      rcases Brackets.angles_cases depth lexeme.token with allowed | ⟨closes, rfl⟩
      · cases plain : lexeme.token.isPunct ['{', '}', ';'] with
        | true =>
            rw [closingAngle_divided plain] at found
            cases found
        | false =>
            rw [closingAngle_next allowed plain] at found
            obtain ⟨later, isLater, length⟩ := Option.map_eq_some_iff.mp found
            obtain ⟨inner, closing, behind, rfl, rfl, closes, nested, undivided⟩ :=
              inductionHypothesis isLater
            exact ⟨lexeme :: inner, closing, behind, rfl, length, closes, ⟨allowed, nested⟩,
              undivided_cons.mpr ⟨plain, undivided⟩⟩
      · rw [closingAngle_last closes] at found
        obtain rfl : 0 = close := Option.some.inj found
        exact ⟨[], lexeme, rest, rfl, rfl, closes, rfl, by simp [Undivided]⟩

theorem closingAngle_of_nested (nested : Nested depth inner) (undivided : Undivided inner)
    (closes : closing.token = .punct '>') (behind : List Lexeme) :
    closingAngle (depth + 1) (inner ++ closing :: behind) = some inner.length := by
  induction inner generalizing depth with
  | nil =>
      obtain rfl : depth = 0 := nested
      exact closingAngle_last closes behind
  | cons lexeme inner inductionHypothesis =>
      obtain ⟨plain, undivided⟩ := undivided_cons.mp undivided
      rw [List.cons_append, closingAngle_next nested.1 plain,
        inductionHypothesis nested.2 undivided]
      rfl

theorem matchingAngle_opening (opens : opening.token = .punct '<') (rest : List Lexeme) :
    matchingAngle (opening :: rest) = (closingAngle 1 rest).map (· + 1) :=
  if_pos opens

theorem matchingAngle_cases {rest : List Lexeme} (opens : opening.token = .punct '<')
    (found : matchingAngle (opening :: rest) = some close) :
    ∃ inner closing behind, rest = inner ++ closing :: behind ∧ inner.length + 1 = close ∧
      IsGroup opening inner closing := by
  rw [matchingAngle_opening opens] at found
  obtain ⟨later, isLater, length⟩ := Option.map_eq_some_iff.mp found
  obtain ⟨inner, closing, behind, rfl, rfl, closes, nested, undivided⟩ :=
    closingAngle_cases isLater
  exact ⟨inner, closing, behind, rfl, length, opens, closes, nested, undivided⟩

theorem matchingAngle_group (isGroup : IsGroup opening inner closing) (behind : List Lexeme) :
    matchingAngle (opening :: (inner ++ closing :: behind)) = some (inner.length + 1) := by
  rw [matchingAngle_opening isGroup.opens,
    closingAngle_of_nested isGroup.nested isGroup.undivided isGroup.closes]
  rfl

theorem spanOf_group (opening closing : Lexeme) (inner behind : List Lexeme) :
    spanOf (opening :: (inner ++ closing :: behind)) 0 (inner.length + 1) =
      [⟨opening.start, closing.stop⟩] := by
  simp [spanOf]

end Search

/-- A header made of lexemes without an angle bracket and of groups: the ranges of the groups, and
the lexemes outside of them. -/
inductive Grouped : List Lexeme → List Span → List Lexeme → Prop where
  | nil : Grouped [] [] []
  | plain {lexeme : Lexeme} {rest outer : List Lexeme} {spans : List Span}
      (plain : lexeme.token.isPunct ['<', '>', '{', '}', ';'] = false)
      (later : Grouped rest spans outer) : Grouped (lexeme :: rest) spans (lexeme :: outer)
  | group {opening closing : Lexeme} {inner rest outer : List Lexeme} {spans : List Span}
      (isGroup : IsGroup opening inner closing) (later : Grouped rest spans outer) :
      Grouped (opening :: (inner ++ closing :: rest)) (⟨opening.start, closing.stop⟩ :: spans) outer

section Header

variable {depth outside : Nat} {lexeme opening closing brace : Lexeme}
  {header inner rest outer : List Lexeme} {spans : List Span} {span : Span}

theorem Nested.split (nested : Nested (depth + (outside + 1)) header) :
    ∃ inner closing behind, header = inner ++ closing :: behind ∧ closing.token = .punct '>' ∧
      Nested depth inner ∧ Nested outside behind := by
  induction header generalizing depth with
  | nil =>
      have isZero : depth + (outside + 1) = 0 := nested
      omega
  | cons lexeme rest inductionHypothesis =>
      have later := nested.2
      rcases Brackets.angles_cases depth lexeme.token with allowed | ⟨closes, rfl⟩
      · rw [Brackets.step_add allowed] at later
        obtain ⟨inner, closing, behind, rfl, closes, nested, alsoNested⟩ :=
          inductionHypothesis later
        exact ⟨lexeme :: inner, closing, behind, rfl, closes, ⟨allowed, nested⟩, alsoNested⟩
      · have stepped : Brackets.angles.step (0 + (outside + 1)) lexeme.token = outside := by
          simp [closes, Brackets.step, Brackets.angles, Token.isPunct]
        rw [stepped] at later
        exact ⟨[], lexeme, rest, rfl, closes, rfl, later⟩

theorem outsideAngles_inner (nested : Nested depth inner) (closes : closing.token = .punct '>')
    (behind : List Lexeme) :
    outsideAngles (depth + 1) (inner ++ closing :: behind) = outsideAngles 0 behind := by
  induction inner generalizing depth with
  | nil =>
      obtain rfl : depth = 0 := nested
      simp [outsideAngles, closes, Brackets.step, Brackets.angles, Token.isPunct]
  | cons lexeme inner inductionHypothesis =>
      rw [List.cons_append, outsideAngles, Brackets.step_add nested.1,
        inductionHypothesis nested.2]
      simp

theorem Nested.group_front (nested : Nested 0 (lexeme :: rest)) (undivided : Undivided rest)
    (opens : lexeme.token = .punct '<') :
    ∃ inner closing behind, rest = inner ++ closing :: behind ∧ IsGroup lexeme inner closing ∧
      Nested 0 behind ∧ Undivided behind ∧
      outsideAngles 0 (lexeme :: rest) = outsideAngles 0 behind := by
  have stepped : Brackets.angles.step 0 lexeme.token = 1 := by
    rw [opens]
    rfl
  have later : Nested (0 + (0 + 1)) rest := by
    have later := nested.2
    rw [stepped] at later
    exact later
  obtain ⟨inner, closing, behind, rfl, closes, inside, outside⟩ := later.split
  obtain ⟨undividedInner, undividedBehind⟩ := undivided_append.mp undivided
  refine ⟨inner, closing, behind, rfl, ⟨opens, closes, inside, undividedInner⟩, outside,
    (undivided_cons.mp undividedBehind).2, ?_⟩
  rw [outsideAngles, stepped, if_neg (by simp [opens])]
  exact outsideAngles_inner inside closes behind

theorem Nested.plain_front (nested : Nested 0 (lexeme :: rest))
    (undivided : lexeme.token.isPunct ['{', '}', ';'] = false)
    (notOpening : lexeme.token ≠ .punct '<') :
    lexeme.token.isPunct ['<', '>', '{', '}', ';'] = false ∧ Nested 0 rest ∧
      outsideAngles 0 (lexeme :: rest) = lexeme :: outsideAngles 0 rest := by
  have allowed := nested.1
  have plain : lexeme.token.isPunct ['<', '>', '{', '}', ';'] = false := by
    cases isToken : lexeme.token with
    | punct mark => simp_all [Brackets.angles, Token.isPunct]
    | _ => rfl
  have stepped : Brackets.angles.step 0 lexeme.token = 0 := by
    cases isToken : lexeme.token with
    | punct mark => simp_all [Brackets.step, Brackets.angles, Token.isPunct]
    | _ => rfl
  refine ⟨plain, stepped ▸ nested.2, ?_⟩
  rw [outsideAngles, if_pos ⟨rfl, notOpening⟩, stepped]

/-- Brackets that are nested are made of groups. -/
theorem exists_grouped (nested : Nested 0 header) (undivided : Undivided header) :
    ∃ spans, Grouped header spans (outsideAngles 0 header) := by
  -- On the length, because a group takes all of its lexemes off the front at once.
  induction isLength : header.length using Nat.strongRecOn generalizing header with
  | _ length inductionHypothesis =>
      subst isLength
      cases header with
      | nil => exact ⟨[], .nil⟩
      | cons lexeme rest =>
          obtain ⟨plain, undivided⟩ := undivided_cons.mp undivided
          by_cases opens : lexeme.token = .punct '<'
          · obtain ⟨inner, closing, behind, rfl, isGroup, nested, undivided, outer⟩ :=
              nested.group_front undivided opens
            have shorter : behind.length < (lexeme :: (inner ++ closing :: behind)).length := by
              simp
              omega
            obtain ⟨spans, grouped⟩ := inductionHypothesis _ shorter nested undivided rfl
            rw [outer]
            exact ⟨_, .group isGroup grouped⟩
          · obtain ⟨unbracketed, nested, outer⟩ := nested.plain_front plain opens
            obtain ⟨spans, grouped⟩ :=
              inductionHypothesis _ (Nat.lt_succ_self _) nested undivided rfl
            rw [outer]
            exact ⟨spans, .plain unbracketed grouped⟩

theorem headerGenerics_skip (front behind : List Lexeme) :
    headerGenerics front.length (front ++ behind) = headerGenerics 0 behind := by
  induction front with
  | nil => rfl
  | cons lexeme rest inductionHypothesis => exact inductionHypothesis

/-- The generic parameters that are found in a header are the groups it is made of. -/
theorem Grouped.headerGenerics (grouped : Grouped header spans outer)
    (isBrace : brace.token = .punct '{') (behind : List Lexeme) :
    headerGenerics 0 (header ++ brace :: behind) = spans := by
  induction grouped with
  | nil => simp [Dialect.headerGenerics, isBrace, Token.isPunct]
  | @plain lexeme rest outer spans plain later inductionHypothesis =>
      rw [List.cons_append, Dialect.headerGenerics, inductionHypothesis]
      cases isToken : lexeme.token with
      | punct mark => simp_all [Token.isPunct]
      | _ => simp [Token.isPunct]
  | @group opening closing inner rest outer spans isGroup later inductionHypothesis =>
      have skipped := headerGenerics_skip (inner ++ [closing]) (rest ++ brace :: behind)
      rw [List.length_append, List.length_singleton, List.append_assoc, List.singleton_append,
        inductionHypothesis] at skipped
      rw [List.cons_append, List.append_assoc, List.cons_append, Dialect.headerGenerics,
        matchingAngle_group isGroup]
      simp [isGroup.opens, Token.isPunct, spanOf_group, skipped]

theorem Grouped.outer_plain (grouped : Grouped header spans outer) :
    ∀ lexeme ∈ outer, lexeme.token.isPunct ['<', '>'] = false := by
  induction grouped with
  | nil => simp
  | @plain lexeme rest outer spans plain later inductionHypothesis =>
      rw [List.forall_mem_cons]
      refine ⟨?_, inductionHypothesis⟩
      cases isToken : lexeme.token with
      | punct mark => simp_all [Token.isPunct]
      | _ => rfl
  | group isGroup later inductionHypothesis => exact inductionHypothesis

end Header

structure Ascending (lexemes : List Lexeme) : Prop where
  ordered : lexemes.Pairwise fun first second => first.stop ≤ second.start
  filled : ∀ lexeme ∈ lexemes, lexeme.start < lexeme.stop

theorem ascending_of_lexes {mode : Lexeme.Mode} {offset : Nat} {text : List Char}
    {lexemes : List Lexeme} (lexes : Lexeme.Lexes mode offset text lexemes) : Ascending lexemes :=
  ⟨lexes.ascending, fun lexeme membership => (lexes.bounds lexeme membership).2⟩

namespace Ascending

variable {lexeme : Lexeme} {front back : List Lexeme}

theorem of_append (ascending : Ascending (front ++ back)) :
    Ascending front ∧ Ascending back ∧
      ∀ first ∈ front, ∀ second ∈ back, first.stop ≤ second.start := by
  obtain ⟨ordered, filled⟩ := ascending
  obtain ⟨orderedFront, orderedBack, order⟩ := List.pairwise_append.mp ordered
  obtain ⟨filledFront, filledBack⟩ := List.forall_mem_append.mp filled
  exact ⟨⟨orderedFront, filledFront⟩, ⟨orderedBack, filledBack⟩, order⟩

theorem of_cons (ascending : Ascending (lexeme :: back)) :
    lexeme.start < lexeme.stop ∧ Ascending back ∧ ∀ second ∈ back, lexeme.stop ≤ second.start := by
  have parts : Ascending ([lexeme] ++ back) := ascending
  obtain ⟨front, ascendingBack, order⟩ := parts.of_append
  exact ⟨front.filled lexeme (List.mem_singleton_self lexeme), ascendingBack,
    order lexeme (List.mem_singleton_self lexeme)⟩

theorem place_unique {lexemes other behind : List Lexeme} (ascending : Ascending lexemes)
    (isPlace : lexemes = front ++ lexeme :: back)
    (alsoPlace : lexemes = other ++ lexeme :: behind) : front = other ∧ back = behind := by
  subst isPlace
  have once : lexeme ∉ back := by
    intro membership
    obtain ⟨filled, -, after⟩ := ascending.of_append.2.1.of_cons
    have behind := after lexeme membership
    omega
  have never : lexeme ∉ front := by
    intro membership
    obtain ⟨ascendingFront, -, before⟩ := ascending.of_append
    have ahead := before lexeme membership lexeme List.mem_cons_self
    have filled := ascendingFront.filled lexeme membership
    omega
  rcases append_cons_cases alsoPlace with ⟨middle, -, isBack⟩ | ⟨sameFront, -, sameBack⟩ |
    ⟨middle, isFront, -⟩
  · exact absurd (by simp [isBack]) once
  · exact ⟨sameFront, sameBack⟩
  · exact absurd (by simp [isFront]) never

theorem of_group {opening closing : Lexeme} {inner rest : List Lexeme}
    (ascending : Ascending (opening :: (inner ++ closing :: rest))) :
    opening.start < closing.stop ∧ Ascending rest ∧
      (∀ lexeme ∈ rest, closing.stop ≤ lexeme.start) ∧
      ∀ lexeme ∈ opening :: (inner ++ [closing]),
        opening.start ≤ lexeme.start ∧ lexeme.stop ≤ closing.stop := by
  obtain ⟨filled, later, behindOpening⟩ := ascending.of_cons
  obtain ⟨ascendingInner, last, beforeClosing⟩ := later.of_append
  obtain ⟨filledClosing, ascendingRest, behindClosing⟩ := last.of_cons
  have closed := behindOpening closing (by simp)
  refine ⟨by omega, ascendingRest, behindClosing, ?_⟩
  intro lexeme membership
  rcases List.mem_cons.mp membership with rfl | membership
  · omega
  rcases List.mem_append.mp membership with isInner | isClosing
  · have after := behindOpening lexeme (by simp [isInner])
    have before := beforeClosing lexeme isInner closing List.mem_cons_self
    omega
  · obtain rfl := List.mem_singleton.mp isClosing
    omega

end Ascending

theorem GroupIn.filled {lexemes : List Lexeme} {span : Span} (group : GroupIn lexemes span)
    (ascending : Ascending lexemes) : span.start < span.stop := by
  obtain ⟨whole, isGroup⟩ := group
  exact (whole ▸ ascending).of_append.2.1.of_group.1

theorem remaining_append (spans : List Span) (first second : List Lexeme) :
    remaining spans (first ++ second) = remaining spans first ++ remaining spans second :=
  List.filter_append first second

theorem remaining_group {opening closing : Lexeme} {inner rest : List Lexeme}
    (ascending : Ascending (opening :: (inner ++ closing :: rest))) (spans : List Span) :
    remaining (⟨opening.start, closing.stop⟩ :: spans) (opening :: (inner ++ closing :: rest)) =
      remaining spans rest := by
  obtain ⟨filled, ascendingRest, behind, inside⟩ := ascending.of_group
  have parts : opening :: (inner ++ closing :: rest) =
      (opening :: (inner ++ [closing])) ++ rest := by
    simp
  have held : remaining (⟨opening.start, closing.stop⟩ :: spans)
      (opening :: (inner ++ [closing])) = [] := by
    rw [remaining, List.filter_eq_nil_iff]
    intro lexeme membership
    simp [Span.holds, inside lexeme membership]
  rw [parts, remaining_append, held, List.nil_append, remaining_passed]
  intro lexeme membership
  exact Nat.lt_of_le_of_lt (behind lexeme membership) (ascendingRest.filled lexeme membership)

namespace Grouped

variable {header outer : List Lexeme} {spans : List Span}

theorem span_bounds (grouped : Grouped header spans outer) (ascending : Ascending header) :
    ∀ span ∈ spans, span.start < span.stop ∧ ∃ first ∈ header, first.start = span.start := by
  induction grouped with
  | nil => simp
  | plain unbracketed later inductionHypothesis =>
      intro span membership
      obtain ⟨filled, first, isFirst, start⟩ :=
        inductionHypothesis ascending.of_cons.2.1 span membership
      exact ⟨filled, first, List.mem_cons_of_mem _ isFirst, start⟩
  | @group opening closing inner rest outer spans isGroup later inductionHypothesis =>
      obtain ⟨filled, ascendingRest, -, -⟩ := ascending.of_group
      rw [List.forall_mem_cons]
      refine ⟨⟨filled, opening, List.mem_cons_self, rfl⟩, ?_⟩
      intro span membership
      obtain ⟨filled, first, isFirst, start⟩ := inductionHypothesis ascendingRest span membership
      exact ⟨filled, first, by simp [isFirst], start⟩

theorem spans_ordered (grouped : Grouped header spans outer) (ascending : Ascending header) :
    spans.Pairwise fun first second => first.stop ≤ second.start := by
  induction grouped with
  | nil => exact .nil
  | plain unbracketed later inductionHypothesis =>
      exact inductionHypothesis ascending.of_cons.2.1
  | group isGroup later inductionHypothesis =>
      obtain ⟨-, ascendingRest, behind, -⟩ := ascending.of_group
      apply List.Pairwise.cons _ (inductionHypothesis ascendingRest)
      intro span membership
      obtain ⟨-, first, isFirst, start⟩ := later.span_bounds ascendingRest span membership
      exact start ▸ behind first isFirst

theorem remaining_groups (grouped : Grouped header spans outer) (ascending : Ascending header) :
    remaining spans header = outer := by
  induction grouped with
  | nil => rfl
  | @plain lexeme rest outer spans unbracketed later inductionHypothesis =>
      obtain ⟨filled, ascendingRest, behind⟩ := ascending.of_cons
      rw [remaining_cons_free, inductionHypothesis ascendingRest]
      intro span membership
      obtain ⟨-, first, isFirst, start⟩ := later.span_bounds ascendingRest span membership
      have after := behind first isFirst
      exact Span.not_holds (.inl (by omega))
  | @group opening closing inner rest outer spans isGroup later inductionHypothesis =>
      rw [remaining_group ascending, inductionHypothesis ascending.of_group.2.1]

end Grouped

theorem Nested.not_behind_opening {front rest : List Lexeme} {opening : Lexeme}
    (nested : Nested 0 (front ++ opening :: rest)) (opens : opening.token = .punct '<')
    (behind : List Lexeme) : ¬ Nested 0 (rest ++ behind) := by
  intro alsoNested
  rw [Nested, List.map_append, List.map_cons, opens] at nested
  rw [Nested, List.map_append] at alsoNested
  obtain ⟨depth, closes⟩ := nested.behind
  have less := alsoNested.le_of_append (Brackets.angles_opening.mp closes)
  omega

theorem IsGroup.closes_inside {opening closing other last : Lexeme}
    {front rest inner behind outer : List Lexeme}
    (isGroup : IsGroup opening (front ++ other :: rest) closing)
    (alsoGroup : IsGroup other inner last)
    (whole : inner ++ last :: behind = rest ++ closing :: outer) :
    ∃ middle, rest = inner ++ last :: middle := by
  have crossing := isGroup.nested.not_behind_opening alsoGroup.opens
  rcases append_cons_cases whole with ⟨middle, isRest, -⟩ | ⟨rfl, -, -⟩ | ⟨middle, rfl, -⟩
  · exact ⟨middle, isRest⟩
  · exact absurd alsoGroup.nested (List.append_nil inner ▸ crossing [])
  · exact absurd alsoGroup.nested (crossing (closing :: middle))

theorem IsGroup.same_inner {opening closing last : Lexeme} {inner other behind outer : List Lexeme}
    (isGroup : IsGroup opening inner closing) (alsoGroup : IsGroup opening other last)
    (whole : other ++ last :: behind = inner ++ closing :: outer) : last = closing := by
  have found := matchingAngle_group isGroup outer
  rw [← whole, matchingAngle_group alsoGroup] at found
  have length : other.length = inner.length := Nat.succ.inj (Option.some.inj found)
  exact (List.cons.inj (List.append_inj whole length).2).1

/-- Every group of a header is one of those it is made of, or lies behind the start of one. -/
theorem Grouped.group_inside {header outer : List Lexeme} {spans : List Span} {span : Span}
    (grouped : Grouped header spans outer) (ascending : Ascending header)
    (group : GroupIn header span) :
    span ∈ spans ∨ ∃ outermost ∈ spans, outermost.start < span.start ∧
      span.stop ≤ outermost.stop := by
  induction grouped with
  | nil =>
      obtain ⟨whole, isGroup⟩ := group
      simp at whole
  | @plain lexeme rest outer spans unbracketed later inductionHypothesis =>
      obtain @⟨front, inner, behind, opening, closing, whole, isGroup⟩ := group
      cases front with
      | nil =>
          obtain ⟨rfl, -⟩ := List.cons.inj whole
          simp [isGroup.opens, Token.isPunct] at unbracketed
      | cons other front =>
          obtain ⟨rfl, isRest⟩ := List.cons.inj whole
          exact inductionHypothesis ascending.of_cons.2.1 ⟨isRest, isGroup⟩
  | @group opening closing inner rest outer spans isGroup later inductionHypothesis =>
      obtain @⟨front, other, behind, first, last, whole, alsoGroup⟩ := group
      obtain ⟨-, ascendingRest, -, inside⟩ := ascending.of_group
      obtain ⟨filled, -, after⟩ := ascending.of_cons
      cases front with
      | nil =>
          obtain ⟨rfl, sameRest⟩ := List.cons.inj whole
          obtain rfl := isGroup.same_inner alsoGroup sameRest.symm
          exact .inl List.mem_cons_self
      | cons same front =>
          -- The other group starts behind this one, or inside of it and then it ends there as well.
          rcases append_cons_cases (List.cons.inj whole).2 with
            ⟨middle, rfl, isBehind⟩ | ⟨-, rfl, -⟩ | ⟨middle, rfl, isBehind⟩
          · rcases inductionHypothesis ascendingRest ⟨isBehind, alsoGroup⟩ with
              found | ⟨outermost, isOutermost, bounds⟩
            · exact .inl (List.mem_cons_of_mem _ found)
            · exact .inr ⟨outermost, List.mem_cons_of_mem _ isOutermost, bounds⟩
          · have different := alsoGroup.opens.symm.trans isGroup.closes
            simp at different
          · obtain ⟨middle, rfl⟩ := isGroup.closes_inside alsoGroup isBehind
            have firstBehind := after first (by simp)
            have lastInside := inside last (by simp)
            exact .inr ⟨_, List.mem_cons_self, by simp; omega, lastInside.2⟩

end Dialect

end AutoloadIndex
