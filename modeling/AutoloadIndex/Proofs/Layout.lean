import Mathlib.Data.List.Chain
import AutoloadIndex.Proofs.Relexing
import AutoloadIndex.Proofs.Removal
import AutoloadIndex.Proofs.Slices

set_option autoImplicit false

/-!
Lowering keeps the layout of a source. Only whole lexemes are blanked, no byte moves, and the
lexemes outside the blanked ranges are found again where they were, unless a close tag is blanked.
-/

namespace AutoloadIndex

namespace Lexeme

/-- How lexemes follow each other: a tag is opened just after one was closed, and only the bracket
of attributes follows their mark. -/
structure Follows (first second : Lexeme) : Prop where
  tag : second.token = .openTag → first.token = .closeTag
  text : first.token = .closeTag → second.token = .openTag
  bracket : first.token = .punct '#' → second.token = .punct '[' ∧ second.start = first.stop

theorem piece_attributes {mode : Mode} {c : Char} {rest : List Char} {more : Nat}
    (read : piece mode c rest = .ok (.lexeme (.punct '#') more)) :
    more = 0 ∧ rest.head? = some '[' := by
  cases mode with
  | html =>
      have isTag := (piece_openTag_iff read).mpr rfl
      exact absurd isTag (by simp)
  | code =>
      generalize isMark : Token.punct '#' = token at read
      cases codePiece_eq_iff.mp read with
      | attributes mark next => exact ⟨rfl, next⟩
      | @quoted quote more mark extent =>
          rcases quote.token_cases (c :: rest.take more) with isToken | isToken <;>
            cases isMark.trans isToken
      | mark alone =>
          cases isMark
          exact absurd rfl alone.notHash
      | _ => cases isMark

namespace Lexes

variable {mode : Mode} {offset : Nat} {text : List Char} {lexemes : List Lexeme}

theorem openTag_first {first : Lexeme} (lexes : Lexes mode offset text (first :: lexemes))
    (isTag : first.token = .openTag) : mode = .html := by
  generalize whole : first :: lexemes = all at lexes
  induction lexes with
  | done => cases whole
  | gap read later inductionHypothesis => exact inductionHypothesis whole
  | lexeme read later inductionHypothesis =>
      cases whole
      exact (piece_openTag_iff read).mp isTag

theorem bracket_first {first : Lexeme}
    (lexes : Lexes .code offset ('[' :: text) (first :: lexemes)) :
    first.token = .punct '[' ∧ first.start = offset := by
  have isBracket : piece .code '[' text = .ok (.lexeme (.punct '[') 0) := by
    simp [piece, codePiece, isSpace, isNameStart]
  generalize whole : '[' :: text = all at lexes
  cases lexes with
  | gap read later =>
      obtain ⟨rfl, rest⟩ := List.cons.inj whole
      rw [← rest, isBracket] at read
      exact absurd read (by simp)
  | lexeme read later =>
      obtain ⟨rfl, rest⟩ := List.cons.inj whole
      rw [← rest, isBracket] at read
      simp only [Except.ok.injEq, Piece.lexeme.injEq] at read
      exact ⟨read.1.symm, rfl⟩

theorem successive (lexes : Lexes mode offset text lexemes) : lexemes.IsChain Follows := by
  induction lexes with
  | done => exact .nil
  | gap read later inductionHypothesis => exact inductionHypothesis
  | @lexeme mode offset c front text token lexemes read later inductionHypothesis =>
      apply inductionHypothesis.cons
      intro second isSecond
      obtain ⟨others, rfl⟩ := List.head?_eq_some_iff.mp isSecond
      constructor
      · intro isTag
        have inText : token.following = .html := later.openTag_first isTag
        cases token <;> first | rfl | exact absurd inText (by simp [Token.following])
      · rintro rfl
        exact later.html_first.1
      · rintro rfl
        obtain ⟨length, next⟩ := piece_attributes read
        obtain rfl : front = [] := List.eq_nil_of_length_eq_zero length
        obtain ⟨text, rfl⟩ := List.head?_eq_some_iff.mp next
        exact later.bracket_first

theorem follows (lexes : Lexes mode offset text lexemes) {i : Nat} {first second : Lexeme}
    (isFirst : lexemes[i]? = some first) (isSecond : lexemes[i + 1]? = some second) :
    Follows first second := by
  obtain ⟨-, rfl⟩ := List.getElem?_eq_some_iff.mp isFirst
  obtain ⟨inside, rfl⟩ := List.getElem?_eq_some_iff.mp isSecond
  exact List.isChain_iff_getElem.mp lexes.successive i inside

theorem stop_le (lexes : Lexes mode offset text lexemes) {i j : Nat} {first second : Lexeme}
    (order : i < j) (isFirst : lexemes[i]? = some first) (isSecond : lexemes[j]? = some second) :
    first.stop ≤ second.start := by
  obtain ⟨_, rfl⟩ := List.getElem?_eq_some_iff.mp isFirst
  obtain ⟨_, rfl⟩ := List.getElem?_eq_some_iff.mp isSecond
  exact List.pairwise_iff_getElem.mp lexes.ascending i j _ _ order

theorem start_lt (lexes : Lexes mode offset text lexemes) {i : Nat} {lexeme : Lexeme}
    (isLexeme : lexemes[i]? = some lexeme) : lexeme.start < lexeme.stop :=
  (lexes.bounds lexeme (List.mem_of_getElem? isLexeme)).2

theorem overlap (lexes : Lexes mode offset text lexemes) {first last : Lexeme}
    (isFirst : first ∈ lexemes) (isLast : last ∈ lexemes) (before : first.start < last.stop) :
    first.start ≤ last.start ∧ first.stop ≤ last.stop := by
  obtain ⟨i, isFirst⟩ := List.getElem?_of_mem isFirst
  obtain ⟨j, isLast⟩ := List.getElem?_of_mem isLast
  have firstFilled := lexes.start_lt isFirst
  have lastFilled := lexes.start_lt isLast
  rcases Nat.lt_trichotomy i j with ahead | rfl | behind
  · have order := lexes.stop_le ahead isFirst isLast
    omega
  · cases isFirst.symm.trans isLast
    omega
  · have order := lexes.stop_le behind isLast isFirst
    omega

theorem eq_of_start (lexes : Lexes mode offset text lexemes) {i j : Nat} {first second : Lexeme}
    (isFirst : lexemes[i]? = some first) (isSecond : lexemes[j]? = some second)
    (same : first.start = second.start) : i = j := by
  have firstFilled := lexes.start_lt isFirst
  have secondFilled := lexes.start_lt isSecond
  rcases Nat.lt_trichotomy i j with before | equal | behind
  · have order := lexes.stop_le before isFirst isSecond
    omega
  · exact equal
  · have order := lexes.stop_le behind isSecond isFirst
    omega

theorem bracket_behind (lexes : Lexes mode offset text lexemes) {i j : Nat} {mark other : Lexeme}
    (isMark : lexemes[i]? = some mark) (marked : mark.token = .punct '#')
    (isOther : lexemes[j]? = some other) (adjacent : mark.stop = other.start) :
    j = i + 1 ∧ other.token = .punct '[' := by
  have markFilled := lexes.start_lt isMark
  have order : i < j := by
    rcases Nat.lt_trichotomy i j with before | rfl | behind
    · exact before
    · cases isMark.symm.trans isOther
      omega
    · have order := lexes.stop_le behind isOther isMark
      have otherFilled := lexes.start_lt isOther
      omega
  obtain ⟨inside, -⟩ := List.getElem?_eq_some_iff.mp isOther
  obtain ⟨second, isNext⟩ : ∃ second, lexemes[i + 1]? = some second :=
    ⟨_, List.getElem?_eq_getElem (by omega)⟩
  have next := (lexes.follows isMark isNext).bracket marked
  obtain rfl : j = i + 1 := lexes.eq_of_start isOther isNext (adjacent.symm.trans next.2.symm)
  cases isNext.symm.trans isOther
  exact ⟨rfl, next.1⟩

end Lexes

end Lexeme

namespace Dialect

open Lexeme

theorem exists_name {lexemes : List Lexeme} {i : Nat} (isName : (nameAhead lexemes i).isSome) :
    ∃ lexeme word, lexemes[i]? = some lexeme ∧ lexeme.token = .ident word := by
  cases isLexeme : lexemes[i]? with
  | none => simp [nameAhead, ahead, isLexeme] at isName
  | some lexeme =>
      cases isToken : lexeme.token with
      | ident word => exact ⟨lexeme, word, rfl, isToken⟩
      | _ => simp [nameAhead, ahead, isLexeme, isToken, Token.name?] at isName

theorem exists_punct {lexemes : List Lexeme} {i : Nat} {mark : Char}
    (isPunct : punctAhead [mark] lexemes i) :
    ∃ lexeme, lexemes[i]? = some lexeme ∧ lexeme.token = .punct mark := by
  cases isLexeme : lexemes[i]? with
  | none => simp [punctAhead, ahead, isLexeme] at isPunct
  | some lexeme =>
      refine ⟨lexeme, rfl, ?_⟩
      cases isToken : lexeme.token with
      | punct other => simpa [punctAhead, ahead, isLexeme, isToken, Token.isPunct] using isPunct
      | _ => simp [punctAhead, ahead, isLexeme, isToken, Token.isPunct] at isPunct

section Cuts

variable {mode : Mode} {offset : Nat} {text : List Char} {lexemes : List Lexeme} {i : Nat}
  {first : Lexeme}

theorem Opens.cases (opens : Opens lexemes i) (isFirst : lexemes[i]? = some first) :
    (∃ word, first.token = .ident word) ∨ first.token = .punct '<' ∨
      ∃ k previous word,
        i = k + 1 ∧ lexemes[k]? = some previous ∧ previous.token = .ident word := by
  cases opens with
  | name isName =>
      obtain ⟨lexeme, word, isLexeme, isWord⟩ := exists_name isName
      cases isLexeme.symm.trans isFirst
      exact .inl ⟨word, isWord⟩
  | angle isAngle =>
      obtain ⟨lexeme, isLexeme, isMark⟩ := exists_punct isAngle
      cases isLexeme.symm.trans isFirst
      exact .inr (.inl isMark)
  | behind isName =>
      obtain ⟨previous, word, isPrevious, isWord⟩ := exists_name isName
      exact .inr (.inr ⟨_, previous, word, rfl, isPrevious, isWord⟩)

theorem Opens.not_openTag (opens : Opens lexemes i) (lexes : Lexes mode offset text lexemes)
    (isFirst : lexemes[i]? = some first) : first.token ≠ .openTag := by
  intro isTag
  rcases opens.cases isFirst with
    ⟨word, isWord⟩ | isAngle | ⟨k, previous, word, rfl, isPrevious, isWord⟩
  · simp [isTag] at isWord
  · simp [isTag] at isAngle
  · have closed := (lexes.follows isPrevious isFirst).tag isTag
    simp [closed] at isWord

theorem Opens.apart (opens : Opens lexemes i) (lexes : Lexes mode offset text lexemes)
    (isFirst : lexemes[i]? = some first) {mark : Lexeme} (membership : mark ∈ lexemes)
    (marked : mark.token = .punct '#') : mark.stop ≠ first.start := by
  intro adjacent
  obtain ⟨j, isMark⟩ := List.getElem?_of_mem membership
  obtain ⟨index, isBracket⟩ := lexes.bracket_behind isMark marked isFirst adjacent
  rcases opens.cases isFirst with
    ⟨word, isWord⟩ | isAngle | ⟨k, previous, word, isNext, isPrevious, isWord⟩
  · simp [isBracket] at isWord
  · simp [isBracket] at isAngle
  · obtain rfl : k = j := by omega
    cases isPrevious.symm.trans isMark
    simp [marked] at isWord

theorem Cut.filled {span : Span} (cut : Cut lexemes span) (lexes : Lexes mode offset text lexemes) :
    span.start < span.stop := by
  obtain ⟨order, isFirst, isLast, -⟩ := cut
  have firstFilled := lexes.start_lt isFirst
  have lastFilled := lexes.start_lt isLast
  rcases Nat.lt_or_eq_of_le order with before | rfl
  · exact Nat.lt_of_lt_of_le firstFilled
      (Nat.le_trans (lexes.stop_le before isFirst isLast) (Nat.le_of_lt lastFilled))
  · cases isFirst.symm.trans isLast
    exact firstFilled

theorem Cut.starts {span : Span} (cut : Cut lexemes span) :
    ∃ first ∈ lexemes, first.start = span.start := by
  obtain ⟨-, isFirst, -, -⟩ := cut
  exact ⟨_, List.mem_of_getElem? isFirst, rfl⟩

theorem Cut.stops {span : Span} (cut : Cut lexemes span) :
    ∃ last ∈ lexemes, last.stop = span.stop := by
  obtain ⟨-, -, isLast, -⟩ := cut
  exact ⟨_, List.mem_of_getElem? isLast, rfl⟩

theorem Cut.boundaries {span : Span} (cut : Cut lexemes span) (lexes : Lexes mode 0 text lexemes) :
    Text.IsBoundary text span.start ∧ Text.IsBoundary text span.stop := by
  obtain ⟨first, inLexemes, start⟩ := cut.starts
  obtain ⟨last, alsoInLexemes, stop⟩ := cut.stops
  constructor
  · obtain ⟨front, middle, back, whole, -, isStart, -⟩ := lexes.boundaries first inLexemes
    refine ⟨front, middle ++ back, by rw [whole, List.append_assoc], ?_⟩
    omega
  · obtain ⟨front, middle, back, whole, -, isStart, isStop⟩ := lexes.boundaries last alsoInLexemes
    refine ⟨front ++ middle, back, whole, ?_⟩
    rw [Text.width_append]
    omega

theorem blankable_of_ends {spans : List Span} (lexes : Lexes .html 0 text lexemes)
    (cuts : ∀ span ∈ spans, Cut lexemes span)
    (ordered : spans.Pairwise fun first second => first.stop ≤ second.start)
    (starts : ∀ span ∈ spans, ∀ lexeme ∈ lexemes, lexeme.start = span.start →
      lexeme.token ≠ .closeTag)
    (stops : ∀ span ∈ spans, ∃ lexeme ∈ lexemes, lexeme.stop = span.stop ∧
      lexeme.token ≠ .closeTag) : Blankable 0 lexemes spans := by
  refine ⟨ordered, ?_, ?_, ?_, stops, ?_⟩
  · intro span membership
    exact (cuts span membership).filled lexes
  · intro span membership
    have filled := (cuts span membership).filled lexes
    omega
  · intro span membership
    have notClosing := starts span membership
    obtain ⟨-, isFirst, -, opens⟩ := cuts span membership
    have inLexemes := List.mem_of_getElem? isFirst
    exact .inr ⟨_, inLexemes, rfl, opens.not_openTag lexes isFirst, notClosing _ inLexemes rfl⟩
  · intro span membership mark inLexemes marked
    obtain ⟨-, isFirst, -, opens⟩ := cuts span membership
    exact opens.apart lexes isFirst inLexemes marked

theorem blankable_of_cuts {spans : List Span} (lexes : Lexes .html 0 text lexemes)
    (cuts : ∀ span ∈ spans, Cut lexemes span)
    (ordered : spans.Pairwise fun first second => first.stop ≤ second.start)
    (untagged : ∀ span ∈ spans, ∀ lexeme ∈ lexemes, span.holds lexeme → lexeme.token ≠ .closeTag) :
    Blankable 0 lexemes spans := by
  have held : ∀ span ∈ spans, ∀ first ∈ lexemes, ∀ last ∈ lexemes, first.start = span.start →
      last.stop = span.stop → span.holds first ∧ span.holds last := by
    intro span membership first isFirst last isLast start stop
    have filled := (cuts span membership).filled lexes
    have order := lexes.overlap isFirst isLast (by omega)
    rw [Span.holds_iff, Span.holds_iff]
    omega
  apply blankable_of_ends lexes cuts ordered
  · intro span membership first isFirst start
    obtain ⟨last, isLast, stop⟩ := (cuts span membership).stops
    exact untagged span membership first isFirst
      (held span membership first isFirst last isLast start stop).1
  · intro span membership
    obtain ⟨first, isFirst, start⟩ := (cuts span membership).starts
    obtain ⟨last, isLast, stop⟩ := (cuts span membership).stops
    exact ⟨last, isLast, stop, untagged span membership last isLast
      (held span membership first isFirst last isLast start stop).2⟩

end Cuts

def blankedSpans (lexemes : List Lexeme) : List Span :=
  disjointSpans 0 ((removal {} none 0 lexemes).blanks.mergeSort Span.before)

theorem lower_source {path : Path} {source : List Char} {lexemes : List Lexeme}
    (lexed : lex .html (prepared path source) = .ok lexemes) :
    (lower path source).source = blankFrom 0 (blankedSpans lexemes) (prepared path source) := by
  simp only [lower, lexed]
  rfl

theorem blankedSpans_cut (lexemes : List Lexeme) :
    ∀ span ∈ blankedSpans lexemes, Cut lexemes span := by
  intro span membership
  have inSorted := (disjointSpans_sublist 0 _).subset membership
  exact (removal_taken lexemes {} none 0).cuts span (List.mem_mergeSort.mp inSorted)

theorem blankedSpans_ordered {mode : Mode} {offset : Nat} {text : List Char} {lexemes : List Lexeme}
    (lexes : Lexes mode offset text lexemes) :
    (blankedSpans lexemes).Pairwise fun first second => first.stop ≤ second.start := by
  apply disjointSpans_ordered
  intro span membership
  have cut := (removal_taken lexemes {} none 0).cuts span (List.mem_mergeSort.mp membership)
  exact cut.filled lexes

theorem slices_blanked {mode : Mode} {text : List Char} {lexemes : List Lexeme}
    (lexes : Lexes mode 0 text lexemes) :
    Slices 0 (blankedSpans lexemes) text (blankFrom 0 (blankedSpans lexemes) text) := by
  have cuts := blankedSpans_cut lexemes
  apply slices_blankFrom (blankedSpans_ordered lexes)
  · intro span membership
    exact (cuts span membership).filled lexes
  · intro span membership
    exact Nat.zero_le span.start
  · intro span membership
    exact ((cuts span membership).boundaries lexes).1
  · intro span membership
    exact ((cuts span membership).boundaries lexes).2

theorem aliases_ascending {mode : Mode} {offset : Nat} {text : List Char} {lexemes : List Lexeme}
    (lexes : Lexes mode offset text lexemes) {removed : Removal}
    (taken : TakenFrom lexemes removed) :
    removed.aliases.Pairwise fun first second => first.offset < second.offset := by
  have starts : (lexemes.map Lexeme.start).Pairwise (· < ·) := by
    rw [List.pairwise_map]
    apply lexes.ascending.imp_of_mem
    intro first second inLexemes alsoInLexemes order
    have bounds := lexes.bounds first inLexemes
    omega
  have declared := taken.aliases.trans (List.filter_sublist.map Lexeme.start)
  exact List.pairwise_map.mp (starts.sublist declared)

theorem aliases_declared {lexemes : List Lexeme} {removed : Removal}
    (taken : TakenFrom lexemes removed) :
    ∀ found ∈ removed.aliases, ∃ lexeme ∈ lexemes, lexeme.start = found.offset ∧
      lexeme.token.declaresType := by
  intro found membership
  have inStarts := taken.aliases.subset (List.mem_map_of_mem membership)
  obtain ⟨lexeme, inKeywords, start⟩ := List.mem_map.mp inStarts
  obtain ⟨inLexemes, declares⟩ := List.mem_filter.mp inKeywords
  exact ⟨lexeme, inLexemes, start, declares⟩

/-- What lowering keeps of a source, given its lexemes and the ranges that are blanked. -/
structure KeepsLayout (source : List Char) (lexemes : List Lexeme) (spans : List Span)
    (lowered : Lowered) : Prop where
  length : (Text.bytes lowered.source).length = (Text.bytes source).length
  /-- A byte that changes becomes a space, was no line break, and lies in a range. -/
  changed : ∀ {i : Nat} {old new : UInt8}, (Text.bytes source)[i]? = some old →
    (Text.bytes lowered.source)[i]? = some new → old ≠ new →
      new = 0x20 ∧ old ≠ 0x0A ∧ old ≠ 0x0D ∧ ∃ span ∈ spans, span.start ≤ i ∧ i < span.stop
  starts : ∀ span ∈ spans, ∃ first ∈ lexemes, first.start = span.start
  stops : ∀ span ∈ spans, ∃ last ∈ lexemes, last.stop = span.stop
  ordered : spans.Pairwise fun first second => first.stop ≤ second.start
  filled : ∀ span ∈ spans, span.start < span.stop
  boundaries : ∀ span ∈ spans,
    Text.IsBoundary source span.start ∧ Text.IsBoundary source span.stop
  /-- Without close tags in the ranges, the lexemes outside of them are those of the result. -/
  relexed : (∀ span ∈ spans, ∀ lexeme ∈ lexemes, span.holds lexeme → lexeme.token ≠ .closeTag) →
    lex .html lowered.source = .ok (remaining spans lexemes)
  ascending : lowered.aliases.Pairwise fun first second => first.offset < second.offset
  declared : ∀ found ∈ lowered.aliases, ∃ lexeme ∈ lexemes, lexeme.start = found.offset ∧
    ∃ word, lexeme.token = .ident word ∧
      Text.lowerAscii (Text.trimStart '\\' word) ∈ ["type".toList, "newtype".toList]

/-- A source that lexes keeps its layout, any other is left as it is. -/
theorem lower_keepsLayout (path : Path) (source : List Char) :
    match lex .html (prepared path source) with
    | .ok lexemes =>
        KeepsLayout (prepared path source) lexemes (blankedSpans lexemes) (lower path source)
    | .error _ => lower path source = ⟨prepared path source, []⟩ := by
  split
  case h_1 lexemes lexed =>
      have lexes : Lexes .html 0 (prepared path source) lexemes := lexes_of_lexFrom lexed
      have cuts := blankedSpans_cut lexemes
      have slices := slices_blanked lexes
      have taken := removal_taken lexemes {} none 0
      have result : lower path source =
          ⟨blankFrom 0 (blankedSpans lexemes) (prepared path source),
            (removal {} none 0 lexemes).aliases⟩ := by
        simp only [lower, lexed]
        rfl
      rw [result]
      constructor
      case length => rw [Text.length_bytes, Text.length_bytes, slices.width]
      case changed =>
          intro i old new isOld isNew differ
          obtain ⟨blanks, span, membership, before, after⟩ := slices.changed isOld isNew differ
          rw [Nat.zero_add] at before after
          rcases blanks with same | ⟨isSpace, noFeed, noReturn⟩
          · exact absurd same differ
          · exact ⟨isSpace, noFeed, noReturn, span, membership, before, after⟩
      case starts => exact fun span membership => (cuts span membership).starts
      case stops => exact fun span membership => (cuts span membership).stops
      case ordered => exact blankedSpans_ordered lexes
      case filled => exact fun span membership => (cuts span membership).filled lexes
      case boundaries => exact fun span membership => (cuts span membership).boundaries lexes
      case relexed =>
          intro untagged
          apply lexFrom_of_lexes
          have ordered := blankedSpans_ordered lexes
          exact lexes_blank lexes (blankable_of_cuts lexes cuts ordered untagged)
      case ascending => exact aliases_ascending lexes taken
      case declared =>
          intro found membership
          obtain ⟨lexeme, inLexemes, start, declares⟩ := aliases_declared taken found membership
          exact ⟨lexeme, inLexemes, start, Token.word_of_declaresType declares⟩
  case h_2 fault failed => simp only [lower, failed]

def aliasAndClass : List Char :=
  ['t', 'y', 'p', 'e', ' ', 'A', '=', 'i', 'n', 't', ';', 'c', 'l', 'a', 's', 's', ' ', 'B', '<',
    'T', '>', '{', '}']

def aliasAndClassLexemes : List Lexeme := [
  ⟨.openTag, 0, 5⟩, ⟨.ident ['t', 'y', 'p', 'e'], 6, 10⟩, ⟨.ident ['A'], 11, 12⟩,
  ⟨.punct '=', 12, 13⟩, ⟨.ident ['i', 'n', 't'], 13, 16⟩, ⟨.punct ';', 16, 17⟩,
  ⟨.ident ['c', 'l', 'a', 's', 's'], 17, 22⟩, ⟨.ident ['B'], 23, 24⟩, ⟨.punct '<', 24, 25⟩,
  ⟨.ident ['T'], 25, 26⟩, ⟨.punct '>', 26, 27⟩, ⟨.punct '{', 27, 28⟩, ⟨.punct '}', 28, 29⟩]

theorem relexed_aliasAndClass :
    blankedSpans aliasAndClassLexemes = [⟨6, 17⟩, ⟨24, 27⟩] ∧
      lex .html (lower ⟨"a.hack"⟩ aliasAndClass).source =
        .ok [⟨.openTag, 0, 5⟩, ⟨.ident ['c', 'l', 'a', 's', 's'], 17, 22⟩, ⟨.ident ['B'], 23, 24⟩,
          ⟨.punct '{', 27, 28⟩, ⟨.punct '}', 28, 29⟩] := by
  have spans : blankedSpans aliasAndClassLexemes = [⟨6, 17⟩, ⟨24, 27⟩] := by
    have removed : (removal {} none 0 aliasAndClassLexemes).blanks = [⟨6, 17⟩, ⟨24, 27⟩] := by
      decide +kernel
    rw [blankedSpans, removed, List.mergeSort_of_pairwise (by simp [Span.before])]
    rfl
  refine ⟨spans, ?_⟩
  have found : (lex .html (prepared ⟨"a.hack"⟩ aliasAndClass)).toOption =
      some aliasAndClassLexemes := by
    decide +kernel
  have layout := lower_keepsLayout ⟨"a.hack"⟩ aliasAndClass
  cases lexed : lex .html (prepared ⟨"a.hack"⟩ aliasAndClass) with
  | error fault => simp [lexed, Except.toOption] at found
  | ok lexemes =>
      obtain rfl : lexemes = aliasAndClassLexemes := by
        simpa [lexed, Except.toOption] using found
      rw [lexed] at layout
      have relexed := layout.relexed (by rw [spans]; decide +kernel)
      rw [spans] at relexed
      exact relexed

end Dialect

end AutoloadIndex
