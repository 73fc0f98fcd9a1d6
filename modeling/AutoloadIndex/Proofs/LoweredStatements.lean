import AutoloadIndex.Proofs.AliasAgreement
import AutoloadIndex.Proofs.AngleGroups
import AutoloadIndex.Proofs.Layout

set_option autoImplicit false

/-!
The statements that the lowering comes by, and where the ranges start that each of them blanks. A
range that is left out overlaps one that is blanked.
-/

namespace AutoloadIndex.Dialect

open Lexeme (nameAhead punctAhead)

/-- A statement that the lowering comes by: the keyword, its lexeme, and what follows. -/
structure Site where
  keyword : Keyword
  lexeme : Lexeme
  rest : List Lexeme
deriving DecidableEq, Repr

/-- The ranges to blank at a statement; the nesting does not matter. -/
def Site.blanks (site : Site) : List Span :=
  (statement {} site.keyword site.lexeme site.rest).1.blanks

def keywordAt (nesting : Nesting) (previous : Option Token) (token : Token) : Option Keyword :=
  if nesting.isTopLevel && startsStatement previous then token.name?.bind Keyword.ofWord? else none

/-- All statements at the top level, but for those inside of an alias that is taken out. -/
def sites (nesting : Nesting) (previous : Option Token) (skip : Nat) : List Lexeme → List Site
  | [] => []
  | lexeme :: rest =>
    match skip with
    | skip + 1 => sites nesting (some lexeme.token) skip rest
    | 0 =>
      match keywordAt nesting previous lexeme.token with
      | some keyword =>
        let (_, nesting, skip) := statement nesting keyword lexeme rest
        ⟨keyword, lexeme, rest⟩ :: sites nesting (some lexeme.token) skip rest
      | none => sites (braced nesting lexeme.token) (some lexeme.token) 0 rest

theorem statement_blanks (nesting : Nesting) (site : Site) :
    (statement nesting site.keyword site.lexeme site.rest).1.blanks = site.blanks := by
  unfold Site.blanks statement
  cases site.keyword with
  | typeDecl => cases typeAlias site.lexeme site.rest <;> rfl
  | _ => rfl

theorem removal_keywordAt (nesting : Nesting) (previous : Option Token) (lexeme : Lexeme)
    (rest : List Lexeme) :
    removal nesting previous 0 (lexeme :: rest) =
      match keywordAt nesting previous lexeme.token with
      | some keyword =>
        let (found, nesting, skip) := statement nesting keyword lexeme rest
        found ++ removal nesting (some lexeme.token) skip rest
      | none => removal (braced nesting lexeme.token) (some lexeme.token) 0 rest := by
  rw [removal, keywordAt]
  cases isToken : lexeme.token with
  | ident word => rfl
  | punct mark => simp [Token.name?, braced]
  | _ => simp [Token.name?, braced]

theorem removal_blanks (nesting : Nesting) (previous : Option Token) (skip : Nat)
    (lexemes : List Lexeme) :
    (removal nesting previous skip lexemes).blanks =
      (sites nesting previous skip lexemes).flatMap Site.blanks := by
  induction lexemes generalizing nesting previous skip with
  | nil => rfl
  | cons lexeme rest inductionHypothesis =>
      cases skip with
      | succ skip => exact inductionHypothesis _ _ skip
      | zero =>
          rw [removal_keywordAt, sites]
          cases keywordAt nesting previous lexeme.token with
          | none => exact inductionHypothesis _ _ 0
          | some keyword =>
              have parts : ∀ first second : Removal,
                  (first ++ second).blanks = first.blanks ++ second.blanks := fun _ _ => rfl
              simp only [parts, List.flatMap_cons, inductionHypothesis]
              rw [statement_blanks nesting ⟨keyword, lexeme, rest⟩]

structure Site.StandsIn (site : Site) (previous : Option Token) (lexemes : List Lexeme) : Prop where
  place : ∃ front, lexemes = front ++ site.lexeme :: site.rest ∧
    startsStatement ((front.getLast?.map Lexeme.token).or previous)
  isKeyword : ∃ word, site.lexeme.token = .ident word ∧ Keyword.ofWord? word = some site.keyword

theorem Site.StandsIn.cons {site : Site} {previous : Option Token} {lexeme : Lexeme}
    {rest : List Lexeme} (stands : site.StandsIn (some lexeme.token) rest) :
    site.StandsIn previous (lexeme :: rest) := by
  obtain ⟨⟨front, rfl, starts⟩, isKeyword⟩ := stands
  refine ⟨⟨lexeme :: front, rfl, ?_⟩, isKeyword⟩
  rw [List.getLast?_cons]
  cases isLast : front.getLast? with
  | none => simpa [isLast] using starts
  | some last => simpa [isLast] using starts

theorem keywordAt_cases {nesting : Nesting} {previous : Option Token} {token : Token}
    {keyword : Keyword} (isKeyword : keywordAt nesting previous token = some keyword) :
    startsStatement previous ∧ ∃ word, token = .ident word ∧
      Keyword.ofWord? word = some keyword := by
  unfold keywordAt at isKeyword
  split at isKeyword
  case isTrue starts =>
      refine ⟨(Bool.and_eq_true_iff.mp starts).2, ?_⟩
      cases token with
      | ident word => exact ⟨word, rfl, isKeyword⟩
      | _ => cases isKeyword
  case isFalse => cases isKeyword

theorem sites_standIn {nesting : Nesting} {previous : Option Token} {skip : Nat}
    {lexemes : List Lexeme} :
    ∀ site ∈ sites nesting previous skip lexemes, site.StandsIn previous lexemes := by
  induction lexemes generalizing nesting previous skip with
  | nil => simp [sites]
  | cons lexeme rest inductionHypothesis =>
      intro site membership
      cases skip with
      | succ skip => exact (inductionHypothesis site membership).cons
      | zero =>
          rw [sites] at membership
          cases isKeyword : keywordAt nesting previous lexeme.token with
          | none =>
              rw [isKeyword] at membership
              exact (inductionHypothesis site membership).cons
          | some keyword =>
              rw [isKeyword] at membership
              rcases List.mem_cons.mp membership with rfl | later
              · obtain ⟨starts, spelled⟩ := keywordAt_cases isKeyword
                exact ⟨⟨[], rfl, starts⟩, spelled⟩
              · exact (inductionHypothesis site later).cons

theorem groupIn_of_matchingAngle {opening : Lexeme} {rest : List Lexeme} {close : Nat}
    {span : Span} (opens : opening.token = .punct '<')
    (found : Lexeme.matchingAngle (opening :: rest) = some close)
    (membership : span ∈ spanOf (opening :: rest) 0 close) : GroupIn (opening :: rest) span := by
  obtain ⟨inner, closing, behind, rfl, rfl, isGroup⟩ := matchingAngle_cases opens found
  rw [spanOf_group] at membership
  obtain rfl := List.mem_singleton.mp membership
  exact @GroupIn.mk _ [] _ _ _ _ rfl isGroup

theorem headerGenerics_groups {lexemes : List Lexeme} {skip : Nat} :
    ∀ span ∈ headerGenerics skip lexemes, GroupIn lexemes span := by
  induction lexemes generalizing skip with
  | nil => simp [headerGenerics]
  | cons lexeme rest inductionHypothesis =>
      intro span membership
      have later : ∀ {skip : Nat}, span ∈ headerGenerics skip rest →
          GroupIn (lexeme :: rest) span := by
        intro skip membership
        exact (inductionHypothesis span membership).append [lexeme]
      cases skip with
      | succ skip => exact later membership
      | zero =>
          rw [headerGenerics] at membership
          split at membership
          · simp at membership
          · split at membership
            case isTrue opens =>
                split at membership
                case h_1 close isClose =>
                    rcases List.mem_append.mp membership with found | behind
                    · exact groupIn_of_matchingAngle opens isClose found
                    · exact later behind
                case h_2 => simp at membership
            case isFalse => exact later membership

theorem functionGenerics_groups {rest : List Lexeme} :
    ∀ span ∈ functionGenerics rest, GroupIn rest span := by
  intro span membership
  obtain ⟨n, isRest⟩ :
      ∃ n, (if punctAhead ['&'] rest 0 then rest.tail else rest) = rest.drop n := by
    split
    · exact ⟨1, List.drop_one.symm⟩
    · exact ⟨0, rfl⟩
  simp only [functionGenerics, isRest] at membership
  rw [← List.take_append_drop n rest]
  apply GroupIn.append
  split at membership
  case isTrue opened =>
      obtain ⟨opening, isOpening, opens⟩ := exists_punct (Bool.and_eq_true_iff.mp opened).2
      generalize rest.drop n = later at membership isOpening
      match later, isOpening with
      | name :: other :: behind, isOpening =>
          obtain rfl : other = opening := Option.some.inj isOpening
          split at membership
          case h_1 close isClose =>
              exact (groupIn_of_matchingAngle opens isClose membership).append [name]
          case h_2 => simp at membership
  case isFalse => simp at membership

theorem bodyStart_cases {lexemes : List Lexeme} {start : Nat}
    (found : bodyStart lexemes = some start) :
    ∃ header brace behind, lexemes = header ++ brace :: behind ∧ header.length = start ∧
      brace.token = .punct '{' := by
  induction lexemes generalizing start with
  | nil => simp [bodyStart] at found
  | cons lexeme rest inductionHypothesis =>
      rw [bodyStart] at found
      split at found
      case isTrue isBrace => exact ⟨[], lexeme, rest, rfl, Option.some.inj found, isBrace⟩
      case isFalse =>
          split at found
          · cases found
          · obtain ⟨later, isLater, rfl⟩ := Option.map_eq_some_iff.mp found
            obtain ⟨header, brace, behind, rfl, rfl, isBrace⟩ := inductionHypothesis isLater
            exact ⟨lexeme :: header, brace, behind, rfl, rfl, isBrace⟩

theorem exists_of_mem_spanOf {lexemes : List Lexeme} {i j : Nat} {span : Span}
    (membership : span ∈ spanOf lexemes i j) :
    ∃ first last, lexemes[i]? = some first ∧ lexemes[j]? = some last ∧
      span = ⟨first.start, last.stop⟩ := by
  unfold spanOf at membership
  split at membership
  case h_1 first last isFirst isLast =>
      exact ⟨first, last, isFirst, isLast, List.mem_singleton.mp membership⟩
  case h_2 => simp at membership

theorem mem_spanOf_second {first : Lexeme} {rest : List Lexeme} {last : Nat} {span : Span}
    (membership : span ∈ spanOf (first :: rest) 1 last) :
    ∃ second behind, rest = second :: behind ∧ second.start = span.start := by
  obtain ⟨second, -, isSecond, -, rfl⟩ := exists_of_mem_spanOf membership
  cases rest with
  | nil => simp at isSecond
  | cons other behind =>
      obtain rfl : other = second := Option.some.inj isSecond
      exact ⟨other, behind, rfl, rfl⟩

/-- A range that ends with a lexeme behind which the code goes on. -/
def EndsInCode (lexemes : List Lexeme) (span : Span) : Prop :=
  ∃ i last, lexemes[i]? = some last ∧ last.stop = span.stop ∧
    (last.token ≠ .closeTag ∨ ∃ next, lexemes[i + 1]? = some next ∧ next.token ≠ .openTag)

theorem EndsInCode.of_drop {lexemes : List Lexeme} {n : Nat} {span : Span}
    (ends : EndsInCode (lexemes.drop n) span) : EndsInCode lexemes span := by
  obtain ⟨i, last, isLast, stop, goesOn⟩ := ends
  rw [List.getElem?_drop] at isLast
  rw [List.getElem?_drop] at goesOn
  exact ⟨n + i, last, isLast, stop, goesOn⟩

theorem GroupIn.endsInCode {lexemes : List Lexeme} {span : Span} (group : GroupIn lexemes span) :
    EndsInCode lexemes span := by
  obtain @⟨front, inner, behind, opening, closing, rfl, isGroup⟩ := group
  refine ⟨front.length + (inner.length + 1), closing, by simp, rfl, .inl ?_⟩
  simp [isGroup.closes]

theorem statementEnd_semicolon {depth last : Nat} {lexemes : List Lexeme}
    (found : Lexeme.statementEnd depth lexemes = some last) :
    ∃ lexeme, lexemes[last]? = some lexeme ∧ lexeme.token = .punct ';' := by
  induction lexemes generalizing depth last with
  | nil => simp [Lexeme.statementEnd] at found
  | cons lexeme rest inductionHypothesis =>
      have later : ∀ {depth : Nat}, (Lexeme.statementEnd depth rest).map (· + 1) = some last →
          ∃ other, (lexeme :: rest)[last]? = some other ∧ other.token = .punct ';' := by
        intro depth isMapped
        obtain ⟨last, isLast, rfl⟩ := Option.map_eq_some_iff.mp isMapped
        exact inductionHypothesis isLast
      rw [Lexeme.statementEnd] at found
      split at found
      · exact later found
      split at found
      · exact later found
      split at found
      case isTrue isEnd =>
          obtain rfl : 0 = last := Option.some.inj found
          exact ⟨lexeme, rfl, isEnd.1⟩
      split at found
      · cases found
      · exact later found

theorem closingBrace_brace {depth close : Nat} {lexemes : List Lexeme}
    (found : Lexeme.closingBrace depth lexemes = some close) :
    ∃ lexeme, lexemes[close]? = some lexeme ∧ lexeme.token = .punct '}' := by
  induction lexemes generalizing depth close with
  | nil => simp [Lexeme.closingBrace] at found
  | cons lexeme rest inductionHypothesis =>
      have later : ∀ {depth : Nat}, (Lexeme.closingBrace depth rest).map (· + 1) = some close →
          ∃ other, (lexeme :: rest)[close]? = some other ∧ other.token = .punct '}' := by
        intro depth isMapped
        obtain ⟨close, isClose, rfl⟩ := Option.map_eq_some_iff.mp isMapped
        exact inductionHypothesis isClose
      unfold Lexeme.closingBrace at found
      split at found
      · exact later found
      split at found
      case isTrue isBrace =>
          match depth, found with
          | 1, found =>
              obtain rfl : 0 = close := Option.some.inj found
              exact ⟨lexeme, rfl, isBrace⟩
          | depth + 2, found => exact later found
      case isFalse => exact later found

theorem typeAlias_spans {lexeme : Lexeme} {rest : List Lexeme} {found : Removal} {skip : Nat}
    (isFound : typeAlias lexeme rest = some (found, skip)) :
    ∀ span ∈ found.blanks, lexeme.start = span.start ∧ EndsInCode (lexeme :: rest) span := by
  simp only [typeAlias, Option.bind_eq_bind, Option.bind_eq_some_iff, Option.guard_eq_some',
    Option.pure_def, Option.some.injEq, Prod.mk.injEq] at isFound
  obtain ⟨name, -, -, -, last, isEnd, rfl, rfl⟩ := isFound
  intro span membership
  obtain ⟨first, stop, isFirst, isStop, rfl⟩ := exists_of_mem_spanOf membership
  obtain ⟨semicolon, isSemicolon, token⟩ := statementEnd_semicolon isEnd
  cases isSemicolon.symm.trans isStop
  refine ⟨?_, last, stop, isStop, rfl, .inl (by simp [token])⟩
  rw [Option.some.inj isFirst]

theorem enumBody_cases {rest : List Lexeme} {span : Span} (membership : span ∈ enumBody rest) :
    ∃ name before brace behind close, rest = name :: (before ++ brace :: behind) ∧
      brace.token = .punct '{' ∧ Lexeme.matchingBrace (brace :: behind) = some close ∧
      (span ∈ spanOf rest 1 before.length ∨
        1 < close ∧ span ∈ spanOf (brace :: behind) 1 (close - 1)) := by
  unfold enumBody at membership
  extract_lets found at membership
  cases isFound : found with
  | none => simp [isFound] at membership
  | some spans =>
      rw [isFound, Option.getD_some] at membership
      simp only [found, Option.bind_eq_bind, Option.bind_eq_some_iff, Option.guard_eq_some',
        Option.pure_def, Option.some.injEq] at isFound
      obtain ⟨word, isName, header, isHeader, -, -, close, isClose, rfl⟩ := isFound
      obtain ⟨before, brace, behind, isTail, rfl, isBrace⟩ := bodyStart_cases isHeader
      cases rest with
      | nil => simp at isTail
      | cons name tail =>
          obtain rfl : tail = before ++ brace :: behind := isTail
          rw [List.drop_succ_cons, List.drop_left] at isClose membership
          refine ⟨name, before, brace, behind, close, rfl, isBrace, isClose, ?_⟩
          rcases List.mem_append.mp membership with inHeader | inBody
          · split at inHeader
            · exact .inl inHeader
            · simp at inHeader
          · split at inBody
            case isTrue filled => exact .inr ⟨filled, inBody⟩
            case isFalse => simp at inBody

theorem enumBody_starts {rest : List Lexeme} {span : Span} (membership : span ∈ enumBody rest) :
    ∃ front previous first behind, rest = front ++ previous :: first :: behind ∧
      first.start = span.start ∧ (front = [] ∨ previous.token = .punct '{') := by
  obtain ⟨name, before, brace, behind, close, rfl, isBrace, -, inHeader | ⟨-, inBody⟩⟩ :=
    enumBody_cases membership
  · obtain ⟨second, later, isTail, start⟩ := mem_spanOf_second inHeader
    exact ⟨[], name, second, later, by rw [isTail, List.nil_append], start, .inl rfl⟩
  · obtain ⟨second, later, rfl, start⟩ := mem_spanOf_second inBody
    exact ⟨name :: before, brace, second, later, rfl, start, .inr isBrace⟩

theorem enumBody_endsInCode {rest : List Lexeme} {span : Span} (membership : span ∈ enumBody rest) :
    EndsInCode rest span := by
  obtain ⟨name, before, brace, behind, close, rfl, isBrace, isClose, inHeader | ⟨filled, inBody⟩⟩ :=
    enumBody_cases membership
  · obtain ⟨-, last, -, isLast, rfl⟩ := exists_of_mem_spanOf inHeader
    exact ⟨before.length, last, isLast, rfl, .inr ⟨brace, by simp, by simp [isBrace]⟩⟩
  · obtain ⟨-, last, -, isLast, rfl⟩ := exists_of_mem_spanOf inBody
    obtain ⟨other, isOther, closes⟩ := closingBrace_brace isClose
    apply EndsInCode.of_drop (n := before.length + 1)
    rw [List.drop_succ_cons, List.drop_left]
    refine ⟨close - 1, last, isLast, rfl, .inr ⟨other, ?_, by simp [closes]⟩⟩
    rw [Nat.sub_add_cancel (Nat.le_of_lt filled)]
    exact isOther

/-- Where a range starts that is blanked at a statement, and that it ends in code. -/
inductive Site.Blanks (site : Site) (span : Span) : Prop where
  | generics (group : GroupIn site.rest span)
  | definition (isType : site.keyword = .typeDecl) (start : site.lexeme.start = span.start)
      (ends : EndsInCode (site.lexeme :: site.rest) span)
  | body {front behind : List Lexeme} {previous first : Lexeme} (isEnum : site.keyword = .enumDecl)
      (whole : site.rest = front ++ previous :: first :: behind) (start : first.start = span.start)
      (opens : front = [] ∨ previous.token = .punct '{') (ends : EndsInCode site.rest span)

theorem Site.blanks_cases {site : Site} : ∀ span ∈ site.blanks, site.Blanks span := by
  obtain ⟨keyword, lexeme, rest⟩ := site
  intro span membership
  unfold Site.blanks statement at membership
  cases keyword with
  | classDecl => exact .generics (headerGenerics_groups span membership)
  | interfaceDecl => exact .generics (headerGenerics_groups span membership)
  | traitDecl => exact .generics (headerGenerics_groups span membership)
  | functionDecl => exact .generics (functionGenerics_groups span membership)
  | enumDecl =>
      obtain ⟨front, previous, first, behind, whole, start, opens⟩ := enumBody_starts membership
      exact .body rfl whole start opens (enumBody_endsInCode membership)
  | typeDecl =>
      cases isAlias : typeAlias lexeme rest with
      | none => simp [isAlias] at membership
      | some result =>
          rw [isAlias] at membership
          obtain ⟨start, ends⟩ := typeAlias_spans isAlias span membership
          exact .definition rfl start ends
  | _ => simp at membership

theorem Site.Blanks.endsInCode {site : Site} {span : Span} (blanks : site.Blanks span) :
    EndsInCode (site.lexeme :: site.rest) span := by
  cases blanks with
  | generics group => exact EndsInCode.of_drop (n := 1) group.endsInCode
  | definition isType start ends => exact ends
  | body isEnum whole start opens ends => exact EndsInCode.of_drop (n := 1) ends

theorem eq_of_overlap {spans : List Span} {first second : Span}
    (ordered : spans.Pairwise fun first second => first.stop ≤ second.start)
    (isFirst : first ∈ spans) (isSecond : second ∈ spans) (filled : second.start < second.stop)
    (before : first.start ≤ second.start) (inside : second.start < first.stop) :
    first = second := by
  induction ordered with
  | nil => cases isFirst
  | @cons span rest behind ordered inductionHypothesis =>
      rcases List.mem_cons.mp isFirst with rfl | laterFirst <;>
        rcases List.mem_cons.mp isSecond with same | laterSecond
      · exact same.symm
      · have order := behind second laterSecond
        omega
      · have order := behind first laterFirst
        rw [← same] at order
        omega
      · exact inductionHypothesis laterFirst laterSecond

theorem disjointSpans_cases {last : Nat} {spans : List Span}
    (sorted : spans.Pairwise fun first second => first.start ≤ second.start) :
    ∀ span ∈ spans, span ∈ disjointSpans last spans ∨ span.start < last ∨
      ∃ kept ∈ disjointSpans last spans, kept.start ≤ span.start ∧ span.start < kept.stop := by
  induction spans generalizing last with
  | nil => simp
  | cons first rest inductionHypothesis =>
      obtain ⟨least, sorted⟩ := List.pairwise_cons.mp sorted
      intro span membership
      rw [disjointSpans]
      rcases List.mem_cons.mp membership with rfl | later
      · split
        case isTrue before => exact .inr (.inl before)
        case isFalse => exact .inl List.mem_cons_self
      · split
        case isTrue => exact inductionHypothesis sorted span later
        case isFalse =>
            rcases inductionHypothesis sorted span later with
              kept | inside | ⟨kept, isKept, bounds⟩
            · exact .inl (List.mem_cons_of_mem _ kept)
            · exact .inr (.inr ⟨first, List.mem_cons_self, least span later, inside⟩)
            · exact .inr (.inr ⟨kept, List.mem_cons_of_mem _ isKept, bounds⟩)

theorem Span.before_trans (first second third : Span) (before : first.before second)
    (behind : second.before third) : first.before third := by
  simp only [Span.before, Bool.or_eq_true, Bool.and_eq_true, decide_eq_true_eq,
    beq_iff_eq] at before behind ⊢
  omega

theorem Span.before_total (first second : Span) :
    first.before second || second.before first := by
  simp only [Span.before, Bool.or_eq_true, Bool.and_eq_true, decide_eq_true_eq, beq_iff_eq]
  omega

/-- Every range found at a statement is blanked, or starts inside of one that is. -/
theorem blankedSpans_cases {lexemes : List Lexeme} {site : Site}
    (isSite : site ∈ sites {} none 0 lexemes) :
    ∀ span ∈ site.blanks, span ∈ blankedSpans lexemes ∨
      ∃ kept ∈ blankedSpans lexemes, kept.start ≤ span.start ∧ span.start < kept.stop := by
  intro span membership
  have sorted : ((removal {} none 0 lexemes).blanks.mergeSort Span.before).Pairwise
      fun first second => first.start ≤ second.start := by
    apply (List.pairwise_mergeSort Span.before_trans Span.before_total _).imp
    intro first second order
    rcases Bool.or_eq_true_iff.mp order with earlier | same
    · exact Nat.le_of_lt (of_decide_eq_true earlier)
    · exact Nat.le_of_eq (eq_of_beq (Bool.and_eq_true_iff.mp same).1)
  have found : span ∈ (removal {} none 0 lexemes).blanks.mergeSort Span.before := by
    rw [List.mem_mergeSort, removal_blanks]
    exact List.mem_flatMap.mpr ⟨site, isSite, membership⟩
  rcases @disjointSpans_cases 0 _ sorted span found with kept | negative | inside
  · exact .inl kept
  · exact absurd negative (Nat.not_lt_zero _)
  · exact .inr inside

theorem exists_site {lexemes : List Lexeme} :
    ∀ span ∈ blankedSpans lexemes, ∃ site ∈ sites {} none 0 lexemes, span ∈ site.blanks := by
  intro span membership
  have found := List.mem_mergeSort.mp ((disjointSpans_sublist 0 _).subset membership)
  rw [removal_blanks] at found
  exact List.mem_flatMap.mp found

theorem blankedSpans_endInCode {lexemes : List Lexeme} :
    ∀ span ∈ blankedSpans lexemes, EndsInCode lexemes span := by
  intro span membership
  obtain ⟨site, isSite, isBlank⟩ := exists_site span membership
  obtain ⟨front, place, -⟩ := (sites_standIn _ isSite).place
  apply EndsInCode.of_drop (n := front.length)
  rw [place, List.drop_left]
  exact (Site.blanks_cases span isBlank).endsInCode

/-- The lexemes outside of the blanked ranges are those of the result, unless a range starts with a
close tag, which may be what ends a comment. -/
theorem lex_blankedSpans {path : Path} {source : List Char} {lexemes : List Lexeme}
    (lexed : Lexeme.lex .html (prepared path source) = .ok lexemes)
    (untagged : ∀ span ∈ blankedSpans lexemes, ∀ lexeme ∈ lexemes, lexeme.start = span.start →
      lexeme.token ≠ .closeTag) :
    Lexeme.lex .html (lower path source).source =
      .ok (remaining (blankedSpans lexemes) lexemes) := by
  have lexes : Lexeme.Lexes .html 0 (prepared path source) lexemes := Lexeme.lexes_of_lexFrom lexed
  rw [lower_source lexed]
  apply Lexeme.lexFrom_of_lexes
  apply lexes_blank lexes
  apply blankable_of_ends lexes (blankedSpans_cut lexemes) (blankedSpans_ordered lexes) untagged
  intro span membership
  obtain ⟨i, last, isLast, stop, goesOn⟩ := blankedSpans_endInCode span membership
  refine ⟨last, List.mem_of_getElem? isLast, stop, ?_⟩
  rcases goesOn with notTag | ⟨next, isNext, notTag⟩
  · exact notTag
  · exact fun closes => notTag ((lexes.follows isLast isNext).text closes)

end AutoloadIndex.Dialect
