import AutoloadIndex.Proofs.AngleBalance
import AutoloadIndex.Proofs.LoweredStatements

set_option autoImplicit false

/-!
Generic parameters of class-like declarations. Of a header, nothing but groups of angle brackets is
blanked, so if its brackets are nested, then all of them are.
-/

namespace AutoloadIndex.Dialect

open FactScan (Brackets startsStatement_keyword)
open Lexeme (Lexes lex lexes_of_lexFrom)

/-- The header of a class-like declaration at the top level: the lexemes between its keyword and the
brace of its body. -/
structure ClassHeader (lexemes : List Lexeme) where
  keyword : Keyword
  lexeme : Lexeme
  header : List Lexeme
  brace : Lexeme
  behind : List Lexeme
  declared : ⟨keyword, lexeme, header ++ brace :: behind⟩ ∈ sites {} none 0 lexemes
  classLike : keyword ∈ [.classDecl, .interfaceDecl, .traitDecl]
  isBrace : brace.token = .punct '{'
  undivided : Undivided header

namespace ClassHeader

variable {lexemes front : List Lexeme} {span : Span} (found : ClassHeader lexemes)

/-- Nothing but groups of angle brackets is blanked between the keyword and the brace: the keyword
is not inside of a range, and neither an alias nor an enum is declared in the header. -/
structure Spared : Prop where
  keyword : ∀ span ∈ blankedSpans lexemes, ¬ span.holds found.lexeme
  others : ∀ site ∈ sites {} none 0 lexemes, site.lexeme ∈ found.header →
    site.keyword ≠ .typeDecl ∧ site.keyword ≠ .enumDecl

def StandsBehind (front : List Lexeme) : Prop :=
  lexemes = front ++ found.lexeme :: (found.header ++ found.brace :: found.behind)

theorem exists_front : ∃ front, found.StandsBehind front ∧
    startsStatement (front.getLast?.map Lexeme.token) := by
  obtain ⟨⟨front, whole, starts⟩, -⟩ := sites_standIn _ found.declared
  exact ⟨front, whole, by simpa using starts⟩

theorem blanks_eq {spans : List Span} {outer : List Lexeme}
    (grouped : Grouped found.header spans outer) :
    Site.blanks ⟨found.keyword, found.lexeme, found.header ++ found.brace :: found.behind⟩ =
      spans := by
  rw [← grouped.headerGenerics found.isBrace found.behind]
  have classLike := found.classLike
  simp only [List.mem_cons, List.not_mem_nil, or_false] at classLike
  unfold Site.blanks
  rcases classLike with isClass | isInterface | isTrait
  · rw [isClass]; rfl
  · rw [isInterface]; rfl
  · rw [isTrait]; rfl

theorem exists_word : ∃ word, found.lexeme.token = .ident word ∧
    Keyword.ofWord? word = some found.keyword :=
  (sites_standIn _ found.declared).isKeyword

theorem brace_not_in {inner : List Lexeme} (undivided : Undivided inner) :
    found.brace ∉ inner := by
  intro membership
  have plain := undivided _ membership
  simp [found.isBrace, Token.isPunct] at plain

variable {found}

/-- Behind an enum, a place in the header follows neither its name nor a brace. -/
theorem not_enum_place (starts : startsStatement (front.getLast?.map Lexeme.token))
    (spared : found.Spared) {site : Site} (isSite : site ∈ sites {} none 0 lexemes)
    (isEnum : site.keyword = .enumDecl) {outer before ahead : List Lexeme} {previous : Lexeme}
    (place : outer ++ site.lexeme :: (before ++ [previous]) = front ++ found.lexeme :: ahead)
    (inHeader : ∀ other ∈ ahead, other ∈ found.header) :
    ¬ (before = [] ∨ previous.token = .punct '{') := by
  obtain ⟨word, isWord, spelled⟩ := (sites_standIn _ isSite).isKeyword
  obtain ⟨other, isOther, alsoSpelled⟩ := found.exists_word
  rcases append_cons_cases place with
    ⟨middle, isFront, isBehind⟩ | ⟨-, same, -⟩ | ⟨middle, -, isAhead⟩
  · rintro (rfl | opens)
    · cases middle with
      | nil => simp [isFront, isWord, startsStatement_keyword spelled] at starts
      | cons first middle => simp at isBehind
    · have last := congrArg List.getLast? isBehind
      rw [List.getLast?_concat, List.getLast?_append_cons] at last
      rcases List.mem_cons.mp (List.mem_of_getLast? last.symm) with rfl | isAhead
      · simp [isOther] at opens
      · have plain := found.undivided previous (inHeader previous isAhead)
        simp [opens, Token.isPunct] at plain
  · have classLike := found.classLike
    rw [same, isOther] at isWord
    cases isWord
    rw [← Option.some.inj (spelled.symm.trans alsoSpelled), isEnum] at classLike
    simp at classLike
  · exact absurd isEnum (spared.others site isSite (inHeader _ (by simp [isAhead]))).2

section Places

variable (isPlace : found.StandsBehind front) (ascending : Ascending lexemes)
include isPlace ascending

theorem place_cases : ∀ other ∈ lexemes,
    other.stop ≤ found.lexeme.start ∨ other = found.lexeme ∨ other ∈ found.header ∨
      other = found.brace ∨ found.brace.stop ≤ other.start := by
  intro other membership
  rw [isPlace] at membership ascending
  obtain ⟨-, ascendingTail, before⟩ := ascending.of_append
  obtain ⟨-, ascendingRest, -⟩ := ascendingTail.of_cons
  obtain ⟨-, ascendingBrace, -⟩ := ascendingRest.of_append
  obtain ⟨-, -, after⟩ := ascendingBrace.of_cons
  simp only [List.mem_append, List.mem_cons] at membership
  rcases membership with inFront | isKeyword | inHeader | isBrace | isBehind
  · exact .inl (before other inFront _ List.mem_cons_self)
  · exact .inr (.inl isKeyword)
  · exact .inr (.inr (.inl inHeader))
  · exact .inr (.inr (.inr (.inl isBrace)))
  · exact .inr (.inr (.inr (.inr (after other isBehind))))

theorem header_ascending : Ascending found.header := by
  rw [isPlace] at ascending
  exact ascending.of_append.2.1.of_cons.2.1.of_append.1

theorem keyword_brace : found.lexeme.start < found.lexeme.stop ∧
    found.lexeme.stop ≤ found.brace.start ∧ found.brace.start < found.brace.stop := by
  rw [isPlace] at ascending
  obtain ⟨filled, later, behind⟩ := ascending.of_append.2.1.of_cons
  exact ⟨filled, behind found.brace (by simp), later.filled found.brace (by simp)⟩

theorem header_between : ∀ other ∈ found.header,
    found.lexeme.stop ≤ other.start ∧ other.stop ≤ found.brace.start := by
  intro other inHeader
  rw [isPlace] at ascending
  obtain ⟨-, -, behind⟩ := ascending.of_append.2.1.of_cons
  obtain ⟨-, -, before⟩ := ascending.of_append.2.1.of_cons.2.1.of_append
  exact ⟨behind other (by simp [inHeader]), before other inHeader _ List.mem_cons_self⟩

theorem stop_cases : ∀ other ∈ lexemes,
    other.stop ≤ found.lexeme.start ∨ found.lexeme.stop ≤ other.stop := by
  intro other membership
  have filled := ascending.filled other membership
  rw [isPlace] at membership ascending
  obtain ⟨-, ascendingRest, before⟩ := ascending.of_append
  obtain ⟨-, -, behind⟩ := ascendingRest.of_cons
  rcases List.mem_append.mp membership with inFront | inRest
  · exact .inl (before other inFront _ List.mem_cons_self)
  · rcases List.mem_cons.mp inRest with rfl | later
    · exact .inr (Nat.le_refl _)
    · have after := behind other later
      exact .inr (by omega)

theorem start_cases {other : Lexeme} (membership : other ∈ lexemes)
    (outside : other ∉ found.header) (notBrace : other ≠ found.brace) :
    other.start ≤ found.lexeme.start ∨ found.brace.stop ≤ other.start := by
  have filled := ascending.filled other membership
  rcases place_cases isPlace ascending other membership with
    before | rfl | inHeader | isBrace | behind
  · exact .inl (by omega)
  · exact .inl (Nat.le_refl _)
  · exact absurd inHeader outside
  · exact absurd isBrace notBrace
  · exact .inr behind

theorem group_cases (group : GroupIn lexemes span) :
    span.start ≤ found.lexeme.start ∨ found.brace.stop ≤ span.start ∨
      GroupIn found.header span := by
  obtain @⟨before, inner, after, opening, closing, whole, isGroup⟩ := group
  have notBrace : opening ≠ found.brace := by
    rintro rfl
    simpa [isGroup.opens] using found.isBrace
  have isOpening : opening ∈ lexemes := by
    simp [whole]
  by_cases inHeader : opening ∈ found.header
  case neg => exact (start_cases isPlace ascending isOpening inHeader notBrace).imp_right .inl
  obtain ⟨first, second, isHeader⟩ := List.append_of_mem inHeader
  have place : lexemes =
      (front ++ found.lexeme :: first) ++ opening :: (second ++ found.brace :: found.behind) :=
    Eq.trans isPlace (by simp [isHeader])
  rcases append_cons_cases (ascending.place_unique whole place).2 with
    ⟨middle, isSecond, -⟩ | ⟨-, isClosing, -⟩ | ⟨middle, isInner, -⟩
  · exact .inr (.inr ⟨by rw [isHeader, isSecond], isGroup⟩)
  · have closes := isGroup.closes
    rw [isClosing, found.isBrace] at closes
    simp at closes
  · exact absurd (by simp [isInner]) (found.brace_not_in isGroup.undivided)

theorem enum_cases (starts : startsStatement (front.getLast?.map Lexeme.token))
    (spared : found.Spared) {site : Site} (isSite : site ∈ sites {} none 0 lexemes)
    (isEnum : site.keyword = .enumDecl) {before after : List Lexeme} {previous first : Lexeme}
    (whole : site.rest = before ++ previous :: first :: after)
    (opens : before = [] ∨ previous.token = .punct '{') :
    first.start ≤ found.lexeme.start ∨ found.brace.stop ≤ first.start := by
  obtain ⟨outer, place, -⟩ := (sites_standIn _ isSite).place
  have place : lexemes = (outer ++ site.lexeme :: (before ++ [previous])) ++ first :: after := by
    simp [place, whole]
  by_contra inside
  have notAhead : ∀ ahead later,
      found.header ++ found.brace :: found.behind = ahead ++ first :: later →
      (∀ other ∈ ahead, other ∈ found.header) → False := by
    intro ahead later isHeader inHeader
    have alsoPlace : lexemes = (front ++ found.lexeme :: ahead) ++ first :: later :=
      Eq.trans isPlace (by simp [isHeader])
    exact not_enum_place starts spared isSite isEnum
      (ascending.place_unique place alsoPlace).1 inHeader opens
  apply inside
  apply start_cases isPlace ascending (by simp [place])
  · intro isFirst
    obtain ⟨ahead, later, isHeader⟩ := List.append_of_mem isFirst
    apply notAhead ahead (later ++ found.brace :: found.behind) (by simp [isHeader])
    simp +contextual [isHeader]
  · rintro rfl
    exact notAhead found.header found.behind rfl (fun _ membership => membership)

end Places

section Blanked

variable {text : List Char} (lexes : Lexes .html 0 text lexemes)
  (isPlace : found.StandsBehind front)
  (starts : startsStatement (front.getLast?.map Lexeme.token)) (spared : found.Spared)
include lexes isPlace starts spared

/-- Nothing but groups of the header is blanked between the keyword and the brace. -/
theorem span_cases : ∀ span ∈ blankedSpans lexemes,
    span.stop ≤ found.lexeme.start ∨ found.brace.stop ≤ span.start ∨
      GroupIn found.header span := by
  intro span membership
  have ascending := ascending_of_lexes lexes
  obtain ⟨site, isSite, isBlank⟩ := exists_site span membership
  obtain ⟨⟨outer, place, -⟩, word, isWord, -⟩ := sites_standIn _ isSite
  have parts : span.start ≤ found.lexeme.start ∨ found.brace.stop ≤ span.start ∨
      GroupIn found.header span := by
    cases Site.blanks_cases span isBlank with
    | generics group =>
        apply group_cases isPlace ascending
        rw [place, ← List.singleton_append, ← List.append_assoc]
        exact group.append _
    | definition isType start ends =>
        rw [← start, ← or_assoc]
        apply Or.inl
        apply start_cases isPlace ascending (by simp [place])
        · intro inHeader
          exact (spared.others site isSite inHeader).1 isType
        · intro isBrace
          simp [isBrace, found.isBrace] at isWord
    | body isEnum whole start opens ends =>
        rw [← start, ← or_assoc]
        exact .inl (enum_cases isPlace ascending starts spared isSite isEnum whole opens)
  refine parts.imp_left ?_
  intro before
  obtain ⟨last, isLast, stop⟩ := (blankedSpans_cut lexemes span membership).stops
  rcases stop_cases isPlace ascending last isLast with ahead | behind
  · exact stop ▸ ahead
  · exact absurd (Span.holds_iff.mpr (by omega)) (spared.keyword span membership)

theorem brace_free : ∀ span ∈ blankedSpans lexemes, span.holds found.brace = false := by
  intro span membership
  have ascending := ascending_of_lexes lexes
  have bounds := keyword_brace isPlace ascending
  apply Span.not_holds
  rcases span_cases lexes isPlace starts spared span membership with before | behind | group
  · omega
  · omega
  · obtain ⟨-, last, isLast, stop⟩ := group.ends
    have inside := header_between isPlace ascending last isLast
    omega

theorem remaining_split : remaining (blankedSpans lexemes) lexemes =
    remaining (blankedSpans lexemes) front ++ found.lexeme ::
      (remaining (blankedSpans lexemes) found.header ++ found.brace ::
        remaining (blankedSpans lexemes) found.behind) := by
  have keywordFree : ∀ span ∈ blankedSpans lexemes, span.holds found.lexeme = false := by
    intro span membership
    exact Bool.eq_false_iff.mpr (spared.keyword span membership)
  calc remaining (blankedSpans lexemes) lexemes
      = remaining (blankedSpans lexemes)
          (front ++ found.lexeme :: (found.header ++ found.brace :: found.behind)) :=
        congrArg _ isPlace
    _ = _ := by
        rw [remaining_append, remaining_cons_free keywordFree, remaining_append,
          remaining_cons_free (brace_free lexes isPlace starts spared)]

theorem holds_cases : ∀ span ∈ blankedSpans lexemes,
    GroupIn found.header span ∨ ∀ other ∈ found.header, span.holds other = false := by
  intro span membership
  have ascending := ascending_of_lexes lexes
  have bounds := keyword_brace isPlace ascending
  rcases or_assoc.mpr (span_cases lexes isPlace starts spared span membership) with apart | group
  · right
    intro other inHeader
    have between := header_between isPlace ascending other inHeader
    have filled := (header_ascending isPlace ascending).filled other inHeader
    apply Span.not_holds
    omega
  · exact .inl group

section Groups

variable {spans : List Span} {outer : List Lexeme} (grouped : Grouped found.header spans outer)
include grouped

theorem groups_blanked : ∀ span ∈ spans, span ∈ blankedSpans lexemes := by
  intro span isGroup
  have ascending := ascending_of_lexes lexes
  have ascendingHeader := header_ascending isPlace ascending
  have bounds := keyword_brace isPlace ascending
  obtain ⟨filled, first, isFirst, start⟩ := grouped.span_bounds ascendingHeader span isGroup
  have between := header_between isPlace ascending first isFirst
  have firstFilled := ascendingHeader.filled first isFirst
  rcases blankedSpans_cases found.declared span (found.blanks_eq grouped ▸ isGroup) with
    blanked | ⟨kept, isKept, before, inside⟩
  · exact blanked
  -- What keeps a group from being blanked would be a larger one, and no group is around it.
  rcases span_cases lexes isPlace starts spared kept isKept with ahead | behind | group
  · omega
  · omega
  · have ordered := grouped.spans_ordered ascendingHeader
    rcases grouped.group_inside ascendingHeader group with same | ⟨outermost, isOutermost, bounds⟩
    · exact eq_of_overlap ordered same isGroup filled before inside ▸ isKept
    · have same := eq_of_overlap ordered isOutermost isGroup filled (by omega) (by omega)
      rw [same] at bounds
      omega

theorem blanked_groups :
    ∀ span ∈ blankedSpans lexemes, GroupIn found.header span → span ∈ spans := by
  intro span isBlanked group
  have ascendingHeader := header_ascending isPlace (ascending_of_lexes lexes)
  have filled := group.filled ascendingHeader
  rcases grouped.group_inside ascendingHeader group with same | ⟨outermost, isOutermost, bounds⟩
  · exact same
  · have blanked := groups_blanked lexes isPlace starts spared grouped outermost isOutermost
    have same := eq_of_overlap (blankedSpans_ordered lexes) blanked isBlanked filled (by omega)
      (by omega)
    rw [same] at bounds
    omega

theorem remaining_grouped : remaining (blankedSpans lexemes) found.header = outer := by
  rw [← grouped.remaining_groups (header_ascending isPlace (ascending_of_lexes lexes))]
  apply List.filter_congr
  intro other inHeader
  rw [Bool.eq_iff_iff, List.all_eq_true, List.all_eq_true]
  constructor
  · intro free span isGroup
    exact free span (groups_blanked lexes isPlace starts spared grouped span isGroup)
  · intro free span isBlanked
    rcases holds_cases lexes isPlace starts spared span isBlanked with group | unheld
    · exact free span (blanked_groups lexes isPlace starts spared grouped span isBlanked group)
    · simp [unheld other inHeader]

end Groups

theorem angleSum_header :
    angleSum (remaining (blankedSpans lexemes) found.header) = angleSum found.header :=
  angleSum_remaining (header_ascending isPlace (ascending_of_lexes lexes))
    (blankedSpans_ordered lexes) (holds_cases lexes isPlace starts spared)

theorem remaining_plain_iff (nested : Nested 0 (withoutArrows found.header)) :
    (∀ lexeme ∈ remaining (blankedSpans lexemes) found.header,
        lexeme.token.isPunct ['<', '>'] = false) ↔
      withoutArrows found.header = found.header := by
  constructor
  · intro plain
    rcases withoutArrows_cases found.header with same | less
    · exact same
    · -- Without arrows the header is balanced, so with them it has brackets too much, which stay.
      have balanced := nested.angleSum
      rw [← angleSum_header lexes isPlace starts spared, angleSum_of_plain plain] at less
      omega
  · intro same
    obtain ⟨spans, grouped⟩ := exists_grouped (same ▸ nested) found.undivided
    rw [remaining_grouped lexes isPlace starts spared grouped]
    exact grouped.outer_plain

end Blanked

end ClassHeader

/-- A header whose angle brackets are nested but for the marks of arrows: it stands in the lowered
source without any of the brackets if and only if there is no arrow in it, and then just what is
inside of them is gone. -/
theorem lower_headerGenerics {path : Path} {source : List Char} {lexemes : List Lexeme}
    (lexed : lex .html (prepared path source) = .ok lexemes) (found : ClassHeader lexemes)
    (nested : Nested 0 (withoutArrows found.header)) (spared : found.Spared)
    (untagged : ∀ span ∈ blankedSpans lexemes, ∀ lexeme ∈ lexemes, lexeme.start = span.start →
      lexeme.token ≠ .closeTag) :
    ∃ front kept behind,
      lex .html (lower path source).source =
        .ok (front ++ found.lexeme :: (kept ++ found.brace :: behind)) ∧
      ((∀ lexeme ∈ kept, lexeme.token.isPunct ['<', '>'] = false) ↔
        withoutArrows found.header = found.header) ∧
      (withoutArrows found.header = found.header → kept = outsideAngles 0 found.header) := by
  have lexes : Lexes .html 0 (prepared path source) lexemes := lexes_of_lexFrom lexed
  obtain ⟨front, isPlace, starts⟩ := found.exists_front
  have relexed := lex_blankedSpans lexed untagged
  rw [found.remaining_split lexes isPlace starts spared] at relexed
  refine ⟨_, _, _, relexed, found.remaining_plain_iff lexes isPlace starts spared nested, ?_⟩
  intro same
  obtain ⟨spans, grouped⟩ := exists_grouped (same ▸ nested) found.undivided
  exact found.remaining_grouped lexes isPlace starts spared grouped

def nestedGenerics : List Char := "<?php class A<T> extends B<C<T>> {}".toList

def nestedGenericsLexemes : List Lexeme := [
  ⟨.openTag, 0, 5⟩, ⟨.ident "class".toList, 6, 11⟩, ⟨.ident ['A'], 12, 13⟩, ⟨.punct '<', 13, 14⟩,
  ⟨.ident ['T'], 14, 15⟩, ⟨.punct '>', 15, 16⟩, ⟨.ident "extends".toList, 17, 24⟩,
  ⟨.ident ['B'], 25, 26⟩, ⟨.punct '<', 26, 27⟩, ⟨.ident ['C'], 27, 28⟩, ⟨.punct '<', 28, 29⟩,
  ⟨.ident ['T'], 29, 30⟩, ⟨.punct '>', 30, 31⟩, ⟨.punct '>', 31, 32⟩, ⟨.punct '{', 33, 34⟩,
  ⟨.punct '}', 34, 35⟩]

def nestedGenericsHeader : ClassHeader nestedGenericsLexemes where
  keyword := .classDecl
  lexeme := ⟨.ident "class".toList, 6, 11⟩
  header := (nestedGenericsLexemes.drop 2).take 12
  brace := ⟨.punct '{', 33, 34⟩
  behind := [⟨.punct '}', 34, 35⟩]
  declared := by decide +kernel
  classLike := by decide
  isBrace := rfl
  undivided := by decide +kernel

theorem lower_nestedGenerics :
    lex .html (prepared ⟨"t.php"⟩ nestedGenerics) = .ok nestedGenericsLexemes ∧
      ∃ front behind, lex .html (lower ⟨"t.php"⟩ nestedGenerics).source =
        .ok (front ++ ⟨.ident "class".toList, 6, 11⟩ :: ⟨.ident ['A'], 12, 13⟩ ::
          ⟨.ident "extends".toList, 17, 24⟩ :: ⟨.ident ['B'], 25, 26⟩ ::
          ⟨.punct '{', 33, 34⟩ :: behind) := by
  have lexed : lex .html (prepared ⟨"t.php"⟩ nestedGenerics) = .ok nestedGenericsLexemes := by
    decide +kernel
  have spans : blankedSpans nestedGenericsLexemes = [⟨13, 16⟩, ⟨26, 32⟩] := by
    have removed : (removal {} none 0 nestedGenericsLexemes).blanks = [⟨13, 16⟩, ⟨26, 32⟩] := by
      decide +kernel
    rw [blankedSpans, removed, List.mergeSort_of_pairwise (by simp [Span.before])]
    rfl
  have spared : nestedGenericsHeader.Spared :=
    ⟨by rw [spans]; decide +kernel, by decide +kernel⟩
  have plain : withoutArrows nestedGenericsHeader.header = nestedGenericsHeader.header := by
    decide +kernel
  obtain ⟨front, kept, behind, relexed, -, isKept⟩ := lower_headerGenerics lexed
    nestedGenericsHeader (by decide +kernel) spared (by rw [spans]; decide +kernel)
  have outside : outsideAngles 0 nestedGenericsHeader.header =
      [⟨.ident ['A'], 12, 13⟩, ⟨.ident "extends".toList, 17, 24⟩, ⟨.ident ['B'], 25, 26⟩] := by
    decide +kernel
  rw [isKept plain, outside] at relexed
  exact ⟨lexed, front, behind, relexed⟩

def shapeParameter : List Char := "<?php class A<T as shape('a' => int)> {}".toList

def shapeParameterLexemes : List Lexeme := [
  ⟨.openTag, 0, 5⟩, ⟨.ident "class".toList, 6, 11⟩, ⟨.ident ['A'], 12, 13⟩, ⟨.punct '<', 13, 14⟩,
  ⟨.ident ['T'], 14, 15⟩, ⟨.ident "as".toList, 16, 18⟩, ⟨.ident "shape".toList, 19, 24⟩,
  ⟨.punct '(', 24, 25⟩, ⟨.str "'a'".toList, 25, 28⟩, ⟨.punct '=', 29, 30⟩, ⟨.punct '>', 30, 31⟩,
  ⟨.ident "int".toList, 32, 35⟩, ⟨.punct ')', 35, 36⟩, ⟨.punct '>', 36, 37⟩, ⟨.punct '{', 38, 39⟩,
  ⟨.punct '}', 39, 40⟩]

/-- The arrow of a shape ends the group, and the bracket that closes it stays. -/
theorem lower_shapeParameter :
    let header := (shapeParameterLexemes.drop 2).take 12
    lex .html (prepared ⟨"t.php"⟩ shapeParameter) = .ok shapeParameterLexemes ∧
      ⟨.classDecl, ⟨.ident "class".toList, 6, 11⟩, shapeParameterLexemes.drop 2⟩ ∈
        sites {} none 0 shapeParameterLexemes ∧
      Nested 0 (withoutArrows header) ∧ Undivided header ∧
      lex .html (lower ⟨"t.php"⟩ shapeParameter).source =
        .ok [⟨.openTag, 0, 5⟩, ⟨.ident "class".toList, 6, 11⟩, ⟨.ident ['A'], 12, 13⟩,
          ⟨.ident "int".toList, 32, 35⟩, ⟨.punct ')', 35, 36⟩, ⟨.punct '>', 36, 37⟩,
          ⟨.punct '{', 38, 39⟩, ⟨.punct '}', 39, 40⟩] := by
  decide +kernel

end AutoloadIndex.Dialect
