import AutoloadIndex.Proofs.Blanking
import AutoloadIndex.Proofs.PieceLocality

set_option autoImplicit false

/-!
Lexing a blanked text. Runs of the lexer are derivations, one rule for a gap and one for a lexeme.
If ranges start and end with lexemes and hold no close tag, the lexemes outside of them are found
again, at the same offsets.
-/

namespace AutoloadIndex

namespace Lexeme

/-- Lexemes of a text from an offset on. -/
inductive Lexes : Mode → Nat → List Char → List Lexeme → Prop where
  | done {mode : Mode} {offset : Nat} : Lexes mode offset [] []
  | gap {mode : Mode} {offset : Nat} {c : Char} {front text : List Char} {lexemes : List Lexeme}
      (read : piece mode c (front ++ text) = .ok (.gap front.length))
      (later : Lexes mode (offset + Text.width (c :: front)) text lexemes) :
      Lexes mode offset (c :: (front ++ text)) lexemes
  | lexeme {mode : Mode} {offset : Nat} {c : Char} {front text : List Char} {token : Token}
      {lexemes : List Lexeme}
      (read : piece mode c (front ++ text) = .ok (.lexeme token front.length))
      (later : Lexes token.following (offset + Text.width (c :: front)) text lexemes) :
      Lexes mode offset (c :: (front ++ text))
        (⟨token, offset, offset + Text.width (c :: front)⟩ :: lexemes)

theorem piece_le {mode : Mode} {c : Char} {rest : List Char} {found : Piece}
    (read : piece mode c rest = .ok found) : found.more ≤ rest.length := by
  cases mode with
  | code => exact codePiece_le read
  | html =>
      obtain rfl : htmlPiece c rest = found := Except.ok.inj read
      rcases htmlPiece_cases c rest with gap | ⟨more, -, tag, found⟩
      · simp [gap, Piece.more]
      · rw [found]
        exact tag.le

theorem exists_front {mode : Mode} {c : Char} {rest : List Char} {found : Piece}
    (read : piece mode c rest = .ok found) :
    ∃ front text, rest = front ++ text ∧ found.more = front.length := by
  refine ⟨rest.take found.more, rest.drop found.more, (List.take_append_drop _ _).symm, ?_⟩
  rw [List.length_take]
  exact (Nat.min_eq_left (piece_le read)).symm

theorem lexes_of_lexFrom {mode : Mode} {offset : Nat} {text : List Char} {lexemes : List Lexeme}
    (lexed : lexFrom mode offset text = .ok lexemes) : Lexes mode offset text lexemes := by
  fun_induction lexFrom mode offset text generalizing lexemes with
  | case1 mode offset =>
      cases lexed
      exact .done
  | case2 mode offset c rest fault place failed => simp at lexed
  | case3 mode offset c rest more read inductionHypothesis =>
      obtain ⟨front, text, rfl, length⟩ := exists_front read
      obtain rfl : more = front.length := length
      rw [List.take_left, List.drop_left] at inductionHypothesis lexed
      exact .gap read (inductionHypothesis lexed)
  | case4 mode offset c rest token more read stop found later =>
      rename_i inductionHypothesis
      obtain ⟨front, text, rfl, length⟩ := exists_front read
      obtain rfl : more = front.length := length
      cases lexed
      have later := inductionHypothesis later
      simp only [stop, List.take_left, List.drop_left] at later ⊢
      exact .lexeme read later
  | case5 mode offset c rest token more read stop fault failed => simp at lexed

theorem lexFrom_of_lexes {mode : Mode} {offset : Nat} {text : List Char} {lexemes : List Lexeme}
    (lexes : Lexes mode offset text lexemes) : lexFrom mode offset text = .ok lexemes := by
  induction lexes with
  | done => rw [lexFrom]
  | gap read later inductionHypothesis =>
      rw [lexFrom, read]
      simpa using inductionHypothesis
  | lexeme read later inductionHypothesis =>
      rw [lexFrom, read]
      simp only [List.take_left, List.drop_left, inductionHypothesis]

theorem width_pos (c : Char) (front : List Char) : 0 < Text.width (c :: front) := by
  have positive := c.utf8Size_pos
  rw [Text.width_cons]
  omega

/-- In code there are no open tags, and in inline text nothing else. -/
theorem piece_openTag_iff {mode : Mode} {c : Char} {rest : List Char} {token : Token} {more : Nat}
    (read : piece mode c rest = .ok (.lexeme token more)) : token = .openTag ↔ mode = .html := by
  cases mode with
  | html =>
      have read : htmlPiece c rest = .lexeme token more := Except.ok.inj read
      rcases htmlPiece_cases c rest with gap | ⟨count, -, -, found⟩
      · exact absurd (gap.symm.trans read) (by simp)
      · cases found.symm.trans read
        simp
  | code =>
      have differ : token ≠ .openTag := by
        cases codePiece_eq_iff.mp read with
        | @quoted quote more mark extent =>
            rcases quote.token_cases (c :: rest.take more) with isToken | isToken <;> simp [isToken]
        | _ => simp
      simp [differ]

namespace Lexes

variable {mode : Mode} {offset : Nat} {text : List Char} {lexemes : List Lexeme}

theorem bounds (lexes : Lexes mode offset text lexemes) :
    ∀ lexeme ∈ lexemes, offset ≤ lexeme.start ∧ lexeme.start < lexeme.stop := by
  induction lexes with
  | done => simp
  | @gap mode offset c front text lexemes read later inductionHypothesis =>
      intro lexeme membership
      have bounds := inductionHypothesis lexeme membership
      omega
  | @lexeme mode offset c front text token lexemes read later inductionHypothesis =>
      have positive := width_pos c front
      rw [List.forall_mem_cons]
      refine ⟨⟨Nat.le_refl _, Nat.lt_add_of_pos_right positive⟩, ?_⟩
      intro lexeme membership
      have bounds := inductionHypothesis lexeme membership
      omega

theorem ascending (lexes : Lexes mode offset text lexemes) :
    lexemes.Pairwise fun first second => first.stop ≤ second.start := by
  induction lexes with
  | done => exact List.Pairwise.nil
  | gap read later inductionHypothesis => exact inductionHypothesis
  | lexeme read later inductionHypothesis =>
      apply List.Pairwise.cons _ inductionHypothesis
      intro other membership
      exact (later.bounds other membership).1

theorem boundaries (lexes : Lexes mode offset text lexemes) :
    ∀ lexeme ∈ lexemes, ∃ front middle back, text = front ++ middle ++ back ∧ middle ≠ [] ∧
      lexeme.start = offset + Text.width front ∧
      lexeme.stop = lexeme.start + Text.width middle := by
  induction lexes with
  | done => simp
  | @gap mode offset c front text lexemes read later inductionHypothesis =>
      intro lexeme membership
      obtain ⟨first, middle, back, rfl, nonempty, start, stop⟩ :=
        inductionHypothesis lexeme membership
      refine ⟨c :: front ++ first, middle, back, by simp, nonempty, ?_, stop⟩
      rw [start, Text.width_append]
      omega
  | @lexeme mode offset c front text token lexemes read later inductionHypothesis =>
      rw [List.forall_mem_cons]
      refine ⟨⟨[], c :: front, text, by simp, by simp, by simp, rfl⟩, ?_⟩
      intro lexeme membership
      obtain ⟨first, middle, back, rfl, nonempty, start, stop⟩ :=
        inductionHypothesis lexeme membership
      refine ⟨c :: front ++ first, middle, back, by simp, nonempty, ?_, stop⟩
      rw [start, Text.width_append]
      omega

theorem html_first {first : Lexeme} (lexes : Lexes .html offset text (first :: lexemes)) :
    first.token = .openTag ∧
      ∃ front back, text = front ++ '<' :: back ∧ first.start = offset + Text.width front := by
  generalize mode : Mode.html = start at lexes
  generalize whole : first :: lexemes = all at lexes
  induction lexes with
  | done => cases whole
  | @gap _ offset c front text all read later inductionHypothesis =>
      obtain ⟨isOpenTag, middle, back, rfl, start⟩ := inductionHypothesis mode whole
      refine ⟨isOpenTag, c :: front ++ middle, back, by simp, ?_⟩
      rw [start, Text.width_append, Nat.add_assoc]
  | @lexeme _ offset c front text token all read later inductionHypothesis =>
      subst mode
      cases whole
      refine ⟨(piece_openTag_iff read).mpr rfl, [], ?_⟩
      have read := Except.ok.inj read
      rcases htmlPiece_cases c (front ++ text) with gap | ⟨more, rfl, -, -⟩
      · exact absurd (gap.symm.trans read) (by simp)
      · exact ⟨_, rfl, rfl⟩

end Lexes

theorem Lexes.space_first {offset : Nat} {c : Char} {rest : List Char} {lexemes : List Lexeme}
    (space : isSpace c = true) (lexes : Lexes .code offset (c :: rest) lexemes) :
    ∀ lexeme ∈ lexemes, offset < lexeme.start := by
  cases lexes with
  | @gap _ _ _ front text _ read later =>
      intro lexeme membership
      have bounds := later.bounds lexeme membership
      have positive := width_pos c front
      omega
  | lexeme read later => simp [piece, codePiece, space] at read

theorem Lexes.closeTag_first {offset : Nat} {rest : List Char} {lexemes : List Lexeme}
    (lexes : Lexes .code offset ('?' :: '>' :: rest) lexemes) :
    ∃ others, lexemes = ⟨.closeTag, offset, offset + 2⟩ :: others ∧
      ∀ lexeme ∈ others, offset + 2 ≤ lexeme.start := by
  have isCloseTag : piece .code '?' ('>' :: rest) = .ok (.lexeme .closeTag 1) := by
    simp [piece, codePiece, isSpace]
  generalize whole : '?' :: '>' :: rest = text at lexes
  cases lexes with
  | done => cases whole
  | gap read later =>
      obtain ⟨rfl, rest⟩ := List.cons.inj whole
      rw [← rest, isCloseTag] at read
      exact absurd read (by simp)
  | @lexeme _ _ c front text token others read later =>
      obtain ⟨rfl, rest⟩ := List.cons.inj whole
      rw [← rest, isCloseTag] at read
      simp only [Except.ok.injEq, Piece.lexeme.injEq] at read
      obtain ⟨rfl, length⟩ := read
      obtain ⟨d, rfl⟩ := List.length_eq_one_iff.mp length.symm
      cases rest
      exact ⟨others, rfl, fun lexeme membership => (later.bounds lexeme membership).1⟩

theorem Lexes.spaces {offset : Nat} {blanks text : List Char} {lexemes : List Lexeme}
    (isBlank : ∀ c ∈ blanks, isSpace c = true)
    (lexes : Lexes .code (offset + Text.width blanks) text lexemes) :
    Lexes .code offset (blanks ++ text) lexemes := by
  induction blanks generalizing offset with
  | nil => exact lexes
  | cons c blanks inductionHypothesis =>
      rw [List.forall_mem_cons] at isBlank
      rw [Text.width_cons, ← Nat.add_assoc] at lexes
      have read : piece .code c (blanks ++ text) = .ok (.gap 0) := by
        simp [piece, codePiece, isBlank.1]
      have step : Lexes .code offset (c :: ([] ++ (blanks ++ text))) lexemes :=
        .gap read (inductionHypothesis isBlank.2 lexes)
      exact step

end Lexeme

namespace Dialect

open Lexeme

def Span.holds (span : Span) (lexeme : Lexeme) : Bool :=
  span.start ≤ lexeme.start && lexeme.stop ≤ span.stop

theorem Span.holds_iff {span : Span} {lexeme : Lexeme} :
    span.holds lexeme = true ↔ span.start ≤ lexeme.start ∧ lexeme.stop ≤ span.stop := by
  rw [Span.holds, Bool.and_eq_true, decide_eq_true_eq, decide_eq_true_eq]

theorem Span.not_holds {span : Span} {lexeme : Lexeme}
    (apart : lexeme.start < span.start ∨ span.stop < lexeme.stop) : span.holds lexeme = false := by
  rw [Bool.eq_false_iff, ne_eq, Span.holds_iff]
  omega

def remaining (spans : List Span) (lexemes : List Lexeme) : List Lexeme :=
  lexemes.filter fun lexeme => spans.all fun span => !span.holds lexeme

theorem first_or_later (first : Lexeme) (lexemes : List Lexeme) :
    ∀ lexeme ∈ first :: lexemes,
      lexeme ∈ lexemes ∨ lexeme.start = first.start ∧ lexeme.stop = first.stop := by
  rw [List.forall_mem_cons]
  exact ⟨.inr ⟨rfl, rfl⟩, fun lexeme inLexemes => .inl inLexemes⟩

/-- Ranges that can be blanked in the text of lexemes from an offset on: in order, each from the
start of a lexeme to the end of one, which is no tag. A range may have started before the offset,
and the tags inside of it may leave the code and come back. -/
structure Blankable (offset : Nat) (lexemes : List Lexeme) (spans : List Span) : Prop where
  ordered : spans.Pairwise fun first second => first.stop ≤ second.start
  filled : ∀ span ∈ spans, span.start < span.stop
  ahead : ∀ span ∈ spans, offset < span.stop
  starts : ∀ span ∈ spans, span.start < offset ∨ ∃ lexeme ∈ lexemes, lexeme.start = span.start ∧
    lexeme.token ≠ .openTag ∧ lexeme.token ≠ .closeTag
  stops : ∀ span ∈ spans, ∃ lexeme ∈ lexemes, lexeme.stop = span.stop ∧ lexeme.token ≠ .closeTag
  apart : ∀ span ∈ spans, ∀ lexeme ∈ lexemes, lexeme.token = .punct '#' → lexeme.stop ≠ span.start

namespace Blankable

variable {mode : Mode} {offset : Nat} {text : List Char} {lexemes : List Lexeme} {spans : List Span}

theorem advance (blankable : Blankable offset lexemes spans) {next : Nat} {others : List Lexeme}
    {kept : List Span} (further : offset < next) (isKept : List.Sublist kept spans)
    (isOther : List.Sublist others lexemes)
    (read : ∀ lexeme ∈ lexemes, lexeme ∈ others ∨ lexeme.start = offset ∧ lexeme.stop = next)
    (ahead : ∀ span ∈ kept, next < span.stop) : Blankable next others kept := by
  refine ⟨blankable.ordered.sublist isKept, ?_, ahead, ?_, ?_, ?_⟩
  · intro span membership
    exact blankable.filled span (isKept.subset membership)
  · intro span membership
    by_cases started : span.start < next
    · exact .inl started
    · rcases blankable.starts span (isKept.subset membership) with
        before | ⟨lexeme, inLexemes, start, notTag⟩
      · omega
      · rcases read lexeme inLexemes with inOthers | first
        · exact .inr ⟨lexeme, inOthers, start, notTag⟩
        · omega
  · intro span membership
    have isAhead := ahead span membership
    obtain ⟨lexeme, inLexemes, stop, notTag⟩ := blankable.stops span (isKept.subset membership)
    rcases read lexeme inLexemes with inOthers | first
    · exact ⟨lexeme, inOthers, stop, notTag⟩
    · omega
  · intro span membership lexeme inOthers
    exact blankable.apart span (isKept.subset membership) lexeme (isOther.subset inOthers)

theorem advance_outside (blankable : Blankable offset lexemes spans) {next : Nat}
    {others : List Lexeme} (further : offset < next) (isOther : List.Sublist others lexemes)
    (read : ∀ lexeme ∈ lexemes, lexeme ∈ others ∨ lexeme.start = offset ∧ lexeme.stop = next)
    (behind : ∀ span ∈ spans, next ≤ span.start) : Blankable next others spans := by
  apply blankable.advance further (List.Sublist.refl _) isOther read
  intro span membership
  have isFilled := blankable.filled span membership
  have isBehind := behind span membership
  omega

theorem behind (blankable : Blankable offset lexemes spans) {next : Nat} {others : List Lexeme}
    (read : ∀ lexeme ∈ lexemes, lexeme ∈ others ∨ lexeme.start = offset ∧ lexeme.stop = next)
    (bounds : ∀ lexeme ∈ others, next ≤ lexeme.start)
    (outside : ∀ span ∈ spans, offset < span.start) : ∀ span ∈ spans, next ≤ span.start := by
  intro span membership
  have isOutside := outside span membership
  rcases blankable.starts span membership with before | ⟨lexeme, inLexemes, start, -⟩
  · omega
  · rcases read lexeme inLexemes with inOthers | ⟨isFirst, -⟩
    · exact start ▸ bounds lexeme inOthers
    · omega

theorem rest_ahead {span : Span} {rest : List Span}
    (blankable : Blankable offset lexemes (span :: rest)) {next : Nat} (inside : next ≤ span.stop) :
    ∀ other ∈ rest, next < other.stop := by
  intro other membership
  have isFilled := blankable.filled other (List.mem_cons_of_mem span membership)
  have isBehind := (List.pairwise_cons.mp blankable.ordered).1 other membership
  omega

theorem inside_or_outside (blankable : Blankable offset lexemes spans) :
    (∃ span rest, spans = span :: rest ∧ span.start ≤ offset) ∨
      ∀ span ∈ spans, offset < span.start := by
  cases spans with
  | nil => exact .inr (by simp)
  | cons span rest =>
      by_cases started : span.start ≤ offset
      · exact .inl ⟨span, rest, rfl, started⟩
      · apply Or.inr
        have isFilled := blankable.filled span List.mem_cons_self
        rw [List.forall_mem_cons]
        refine ⟨by omega, ?_⟩
        intro other membership
        have order := (List.pairwise_cons.mp blankable.ordered).1 other membership
        omega

theorem head?_kept (blankable : Blankable offset lexemes spans)
    (outside : ∀ span ∈ spans, offset < span.start) (text : List Char) :
    (blankFrom offset spans text).head? = text.head? := by
  cases spans with
  | nil => rw [blankFrom_nil]
  | cons span rest =>
      cases text with
      | nil => rfl
      | cons c text =>
          have isOutside := outside span List.mem_cons_self
          rw [blankFrom_cons (blankable.ahead span List.mem_cons_self), if_neg (by omega)]
          rfl

theorem fades (blankable : Blankable offset lexemes spans)
    (lexes : Lexes mode offset text lexemes) (outside : ∀ span ∈ spans, offset ≤ span.start) :
    Fades text (blankFrom offset spans text) := by
  cases spans with
  | nil =>
      rw [blankFrom_nil]
      exact .inl rfl
  | cons span rest =>
      have isOutside := outside span List.mem_cons_self
      have isFilled := blankable.filled span List.mem_cons_self
      rcases blankable.starts span List.mem_cons_self with before | ⟨lexeme, inLexemes, start, -⟩
      · omega
      · obtain ⟨front, middle, back, rfl, nonempty, place, -⟩ := lexes.boundaries lexeme inLexemes
        obtain ⟨c, middle, rfl⟩ := List.exists_cons_of_ne_nil nonempty
        have behind : ∀ other ∈ span :: rest, offset + Text.width front ≤ other.start := by
          rw [List.forall_mem_cons]
          refine ⟨by omega, ?_⟩
          intro other membership
          have order := (List.pairwise_cons.mp blankable.ordered).1 other membership
          omega
        rw [List.append_assoc, blankFrom_outside blankable.filled behind, List.cons_append,
          blankFrom_cons (by omega), if_pos (by omega)]
        obtain ⟨space, blanks, equality⟩ := List.exists_cons_of_ne_nil (blankChar_ne_nil c)
        have isSpace := blankChar_isSpace c space (equality ▸ List.mem_cons_self)
        rw [equality]
        exact .inr ⟨front, c, middle ++ back, space, _, rfl, rfl, isSpace⟩

theorem first_le {first : Lexeme} (blankable : Blankable offset (first :: lexemes) spans)
    (lexes : Lexes mode offset text (first :: lexemes)) {span : Span} (membership : span ∈ spans) :
    first.stop ≤ span.stop := by
  obtain ⟨lexeme, inLexemes, stop, -⟩ := blankable.stops span membership
  rcases List.mem_cons.mp inLexemes with rfl | inRest
  · exact Nat.le_of_eq stop
  · have order := (List.pairwise_cons.mp lexes.ascending).1 lexeme inRest
    have bounds := lexes.bounds lexeme inLexemes
    omega

theorem lineBreak_kept (blankable : Blankable offset lexemes spans)
    (lexes : Lexes .code offset text lexemes) (outside : ∀ span ∈ spans, offset ≤ span.start)
    (starts : text.head? = some '\n') : (blankFrom offset spans text).head? = some '\n' := by
  obtain ⟨rest, rfl⟩ := List.head?_eq_some_iff.mp starts
  rw [blankable.head?_kept, List.head?_cons]
  intro span membership
  have isOutside := outside span membership
  rcases blankable.starts span membership with before | ⟨lexeme, inLexemes, start, -⟩
  · omega
  · have later := lexes.space_first (by decide) lexeme inLexemes
    omega

theorem closeTag_kept (blankable : Blankable offset lexemes spans)
    (lexes : Lexes .code offset text lexemes) (outside : ∀ span ∈ spans, offset ≤ span.start)
    (starts : text.take 2 = ['?', '>']) : (blankFrom offset spans text).take 2 = ['?', '>'] := by
  match text, starts with
  | first :: second :: rest, starts =>
      simp only [List.take_succ_cons, List.take_zero, List.cons.injEq, and_true] at starts
      obtain ⟨rfl, rfl⟩ := starts
      obtain ⟨others, rfl, later⟩ := lexes.closeTag_first
      have behind : ∀ span ∈ spans, offset + Text.width ['?', '>'] ≤ span.start := by
        intro span membership
        have isOutside := outside span membership
        have isFilled := blankable.filled span membership
        rcases blankable.starts span membership with
          before | ⟨lexeme, inLexemes, start, -, notTag⟩
        · omega
        · rcases List.mem_cons.mp inLexemes with rfl | inOthers
          · exact absurd rfl notTag
          · have bound := later lexeme inOthers
            rw [start] at bound
            exact bound
      rw [show '?' :: '>' :: rest = ['?', '>'] ++ rest from rfl,
        blankFrom_outside blankable.filled behind]
      rfl

theorem html_kept (blankable : Blankable offset lexemes spans)
    (lexes : Lexes .html offset text lexemes) (outside : ∀ span ∈ spans, offset ≤ span.start) :
    blankFrom offset spans text = text ∨ ∃ front back other,
      text = front ++ '<' :: back ∧ blankFrom offset spans text = front ++ '<' :: other := by
  have starts : ∀ span ∈ spans, ∃ lexeme ∈ lexemes, lexeme.start = span.start ∧
      lexeme.token ≠ .openTag := by
    intro span membership
    have isOutside := outside span membership
    rcases blankable.starts span membership with before | ⟨lexeme, inLexemes, start, notTag, -⟩
    · omega
    · exact ⟨lexeme, inLexemes, start, notTag⟩
  cases lexemes with
  | nil =>
      have noSpans : spans = [] := by
        rw [List.eq_nil_iff_forall_not_mem]
        intro span membership
        obtain ⟨lexeme, inLexemes, -⟩ := starts span membership
        simp at inLexemes
      rw [noSpans, blankFrom_nil]
      exact .inl rfl
  | cons first others =>
      obtain ⟨isOpenTag, front, back, rfl, place⟩ := lexes.html_first
      have bounds := (lexes.bounds first List.mem_cons_self).2
      have behind : ∀ span ∈ spans, offset + Text.width (front ++ ['<']) ≤ span.start := by
        intro span membership
        obtain ⟨lexeme, inLexemes, start, notTag⟩ := starts span membership
        rcases List.mem_cons.mp inLexemes with rfl | inOthers
        · exact absurd isOpenTag notTag
        · have order := (List.pairwise_cons.mp lexes.ascending).1 lexeme inOthers
          have one : Text.width ['<'] = 1 := rfl
          rw [Text.width_append, one]
          omega
      rw [List.append_cons, blankFrom_outside blankable.filled behind]
      refine .inr ⟨front, back, blankFrom (offset + Text.width (front ++ ['<'])) spans back, ?_, ?_⟩
      · simp
      · simp

end Blankable

theorem remaining_cons_held {span : Span} {spans : List Span} {lexeme : Lexeme}
    (membership : span ∈ spans) (held : span.holds lexeme = true) (lexemes : List Lexeme) :
    remaining spans (lexeme :: lexemes) = remaining spans lexemes := by
  apply List.filter_cons_of_neg
  intro free
  have isFree := List.all_eq_true.mp free span membership
  simp [held] at isFree

theorem remaining_cons_free {spans : List Span} {lexeme : Lexeme}
    (free : ∀ span ∈ spans, span.holds lexeme = false) (lexemes : List Lexeme) :
    remaining spans (lexeme :: lexemes) = lexeme :: remaining spans lexemes := by
  apply List.filter_cons_of_pos
  simpa using free

theorem remaining_passed {span : Span} {lexemes : List Lexeme}
    (passed : ∀ lexeme ∈ lexemes, span.stop < lexeme.stop) (spans : List Span) :
    remaining (span :: spans) lexemes = remaining spans lexemes := by
  apply List.filter_congr
  intro lexeme membership
  have isPassed := passed lexeme membership
  have free : span.holds lexeme = false := Span.not_holds (.inr isPassed)
  simp [free]

theorem gap_kept {mode : Mode} {offset : Nat} {c : Char} {front text : List Char}
    {lexemes : List Lexeme} {spans : List Span}
    (read : piece mode c (front ++ text) = .ok (.gap front.length))
    (later : Lexes mode offset text lexemes) (blankable : Blankable offset lexemes spans)
    (outside : ∀ span ∈ spans, offset ≤ span.start) :
    piece mode c (front ++ blankFrom offset spans text) = .ok (.gap front.length) := by
  cases mode with
  | code =>
      refine codePiece_local (blankable.fades later outside) ?_ ?_ ?_ read rfl
      · intro _ _ starts
        exact blankable.lineBreak_kept later outside starts
      · intro _ _ starts
        exact blankable.closeTag_kept later outside starts
      · intro isMark
        exact absurd isMark (by simp)
  | html =>
      have isGap : htmlPiece c (front ++ text) = .gap front.length := Except.ok.inj read
      obtain rfl := htmlPiece_gap isGap
      rcases blankable.html_kept later outside with
        same | ⟨before, back, other, textEquality, blankEquality⟩
      · rw [same]
        exact read
      · rw [List.nil_append, blankEquality]
        rw [List.nil_append, textEquality] at isGap
        exact congrArg _ (htmlPiece_before_tag isGap)

theorem lexeme_kept {mode : Mode} {offset : Nat} {c : Char} {front text : List Char}
    {token : Token} {lexemes : List Lexeme} {spans : List Span}
    (read : piece mode c (front ++ text) = .ok (.lexeme token front.length))
    (later : Lexes token.following offset text lexemes)
    (blankable : Blankable offset lexemes spans)
    (outside : ∀ span ∈ spans, offset ≤ span.start)
    (bracket : token = .punct '#' → ∀ span ∈ spans, offset < span.start) :
    piece mode c (front ++ blankFrom offset spans text) = .ok (.lexeme token front.length) := by
  have fades := blankable.fades later outside
  cases mode with
  | code =>
      refine codePiece_local fades ?_ ?_ ?_ read rfl
      · intro more isGap
        exact absurd isGap (by simp)
      · intro more isGap
        exact absurd isGap (by simp)
      · intro isMark
        have isMark : token = .punct '#' := by
          simp only [Piece.lexeme.injEq] at isMark
          exact isMark.1
        exact blankable.head?_kept (bracket isMark) text
  | html =>
      obtain rfl : token = .openTag := (piece_openTag_iff read).mpr rfl
      exact congrArg _ (htmlPiece_openTag_local fades (Except.ok.inj read))

theorem lexes_inside {offset : Nat} {span : Span} {front text : List Char} {rest : List Span}
    {lexemes : List Lexeme} (started : span.start ≤ offset)
    (inside : offset + Text.width front ≤ span.stop)
    (later : Lexes .code (offset + Text.width front)
      (blankFrom (offset + Text.width front) (span :: rest) text) lexemes) :
    Lexes .code offset (blankFrom offset (span :: rest) (front ++ text)) lexemes := by
  rw [blankFrom_inside started inside]
  apply Lexes.spaces (blanks_isSpace front)
  rw [blanks_width]
  exact later

/-- The mode at an offset of the blanked text: a range that has started is code. -/
def blankedMode (mode : Mode) (offset : Nat) (spans : List Span) : Mode :=
  if spans.any (·.start < offset) then .code else mode

theorem blankedMode_inside {mode : Mode} {offset : Nat} {span : Span}
    (started : span.start < offset) (spans : List Span) :
    blankedMode mode offset (span :: spans) = .code := by
  simp [blankedMode, started]

theorem blankedMode_outside {mode : Mode} {offset : Nat} {spans : List Span}
    (outside : ∀ span ∈ spans, offset ≤ span.start) : blankedMode mode offset spans = mode := by
  apply if_neg
  simpa using outside

theorem Blankable.inCode {mode : Mode} {offset : Nat} {text : List Char} {first : Lexeme}
    {lexemes : List Lexeme} {span : Span} {rest : List Span}
    (blankable : Blankable offset (first :: lexemes) (span :: rest))
    (lexes : Lexes mode offset text (first :: lexemes)) (started : span.start ≤ offset) :
    blankedMode mode offset (span :: rest) = .code := by
  rcases blankable.starts span List.mem_cons_self with
    before | ⟨lexeme, inLexemes, start, notTag, -⟩
  · exact blankedMode_inside before rest
  · have bounds := lexes.bounds lexeme inLexemes
    have ahead := blankable.ahead span List.mem_cons_self
    have order := (List.pairwise_cons.mp blankable.ordered).1
    rw [blankedMode_outside (List.forall_mem_cons.mpr ⟨by omega, fun other membership =>
      Nat.le_trans (Nat.le_of_lt ahead) (order other membership)⟩)]
    cases mode with
    | code => rfl
    | html =>
        rcases List.mem_cons.mp inLexemes with rfl | inLater
        · exact absurd lexes.html_first.1 notTag
        · have behind := (List.pairwise_cons.mp lexes.ascending).1 lexeme inLater
          have firstBounds := lexes.bounds first List.mem_cons_self
          omega

/-- Whatever ranges are blanked in a text, just the lexemes in them are gone. -/
def Relexes (mode : Mode) (offset : Nat) (text : List Char) (lexemes : List Lexeme) : Prop :=
  ∀ spans, Blankable offset lexemes spans →
    Lexes (blankedMode mode offset spans) offset (blankFrom offset spans text)
      (remaining spans lexemes)

section Steps

variable {mode : Mode} {offset : Nat} {c : Char} {front text : List Char} {token : Token}
  {lexemes : List Lexeme} {span : Span} {spans rest : List Span}

theorem Relexes.gap (relexes : Relexes mode (offset + Text.width (c :: front)) text lexemes)
    (read : piece mode c (front ++ text) = .ok (.gap front.length))
    (later : Lexes mode (offset + Text.width (c :: front)) text lexemes) :
    Relexes mode offset (c :: (front ++ text)) lexemes := by
  intro spans blankable
  have further : offset < offset + Text.width (c :: front) :=
    Nat.lt_add_of_pos_right (width_pos c front)
  have bounds := later.bounds
  rcases blankable.inside_or_outside with ⟨span, rest, rfl, started⟩ | outside
  · have started : span.start < offset := by
      rcases blankable.starts span List.mem_cons_self with before | ⟨lexeme, inLexemes, start, -⟩
      · exact before
      · have bound := bounds lexeme inLexemes
        omega
    have ahead : ∀ other ∈ span :: rest, offset + Text.width (c :: front) < other.stop := by
      intro other membership
      obtain ⟨lexeme, inLexemes, stop, -⟩ := blankable.stops other membership
      have bound := bounds lexeme inLexemes
      omega
    have next := relexes _ (blankable.advance further (List.Sublist.refl _) (List.Sublist.refl _)
      (fun lexeme inLexemes => .inl inLexemes) ahead)
    rw [blankedMode_inside (Nat.lt_trans started further)] at next
    rw [blankedMode_inside started]
    exact lexes_inside (Nat.le_of_lt started) (Nat.le_of_lt (ahead span List.mem_cons_self)) next
  · have behind := blankable.behind (fun lexeme inLexemes => .inl inLexemes)
      (fun lexeme inLexemes => (bounds lexeme inLexemes).1) outside
    have next := blankable.advance_outside further (List.Sublist.refl _)
      (fun lexeme inLexemes => .inl inLexemes) behind
    have relexed := relexes _ next
    rw [blankedMode_outside behind] at relexed
    rw [blankedMode_outside fun span membership => Nat.le_of_lt (outside span membership),
      ← List.cons_append, blankFrom_outside blankable.filled behind]
    exact .gap (gap_kept read later next behind) relexed

theorem Relexes.held
    (relexes : Relexes token.following (offset + Text.width (c :: front)) text lexemes)
    (read : piece mode c (front ++ text) = .ok (.lexeme token front.length))
    (later : Lexes token.following (offset + Text.width (c :: front)) text lexemes)
    (blankable : Blankable offset (⟨token, offset, offset + Text.width (c :: front)⟩ :: lexemes)
      (span :: rest)) (started : span.start ≤ offset) :
    Lexes (blankedMode mode offset (span :: rest)) offset
      (blankFrom offset (span :: rest) (c :: (front ++ text)))
      (remaining (span :: rest)
        (⟨token, offset, offset + Text.width (c :: front)⟩ :: lexemes)) := by
  have further : offset < offset + Text.width (c :: front) :=
    Nat.lt_add_of_pos_right (width_pos c front)
  have inside : offset + Text.width (c :: front) ≤ span.stop :=
    blankable.first_le (.lexeme read later) List.mem_cons_self
  have held : span.holds ⟨token, offset, offset + Text.width (c :: front)⟩ = true :=
    Span.holds_iff.mpr ⟨started, inside⟩
  have restAhead := blankable.rest_ahead inside
  rw [blankable.inCode (.lexeme read later) started, remaining_cons_held List.mem_cons_self held]
  apply lexes_inside started inside
  rcases Nat.lt_or_eq_of_le inside with before | ended
  · have next := relexes _ (blankable.advance further (List.Sublist.refl _)
      (List.sublist_cons_self _ _) (first_or_later _ _)
      (List.forall_mem_cons.mpr ⟨before, restAhead⟩))
    rw [blankedMode_inside (Nat.lt_of_le_of_lt started further)] at next
    exact next
  · -- The range ends with this lexeme, so the text behind it is outside again.
    have passed : ∀ lexeme ∈ lexemes, span.stop < lexeme.stop := by
      intro lexeme membership
      have bound := later.bounds lexeme membership
      omega
    have following : token.following = .code := by
      obtain ⟨lexeme, inLexemes, stop, notTag⟩ := blankable.stops span List.mem_cons_self
      rcases List.mem_cons.mp inLexemes with rfl | inLater
      · cases token <;> first | rfl | exact absurd rfl notTag
      · have bound := passed lexeme inLater
        omega
    have next := relexes _ (blankable.advance further (List.sublist_cons_self span rest)
      (List.sublist_cons_self _ _) (first_or_later _ _) restAhead)
    have order := (List.pairwise_cons.mp blankable.ordered).1
    rw [blankedMode_outside fun other membership => ended ▸ order other membership,
      following] at next
    rw [blankFrom_passed (Nat.le_of_eq ended.symm), remaining_passed passed]
    exact next

theorem Relexes.kept
    (relexes : Relexes token.following (offset + Text.width (c :: front)) text lexemes)
    (read : piece mode c (front ++ text) = .ok (.lexeme token front.length))
    (later : Lexes token.following (offset + Text.width (c :: front)) text lexemes)
    (blankable : Blankable offset (⟨token, offset, offset + Text.width (c :: front)⟩ :: lexemes)
      spans) (outside : ∀ span ∈ spans, offset < span.start) :
    Lexes (blankedMode mode offset spans) offset (blankFrom offset spans (c :: (front ++ text)))
      (remaining spans (⟨token, offset, offset + Text.width (c :: front)⟩ :: lexemes)) := by
  have further : offset < offset + Text.width (c :: front) :=
    Nat.lt_add_of_pos_right (width_pos c front)
  have behind := blankable.behind (first_or_later _ _)
    (fun lexeme inLater => (later.bounds lexeme inLater).1) outside
  have next := blankable.advance_outside further (List.sublist_cons_self _ _)
    (first_or_later _ _) behind
  have free : ∀ span ∈ spans,
      span.holds ⟨token, offset, offset + Text.width (c :: front)⟩ = false :=
    fun span membership => Span.not_holds (.inl (outside span membership))
  have bracket : token = .punct '#' → ∀ span ∈ spans,
      offset + Text.width (c :: front) < span.start := by
    intro isMark span membership
    have isApart := blankable.apart span membership _ List.mem_cons_self isMark
    exact Nat.lt_of_le_of_ne (behind span membership) isApart
  have relexed := relexes _ next
  rw [blankedMode_outside behind] at relexed
  rw [blankedMode_outside fun span membership => Nat.le_of_lt (outside span membership),
    ← List.cons_append, blankFrom_outside blankable.filled behind, remaining_cons_free free]
  exact .lexeme (lexeme_kept read later next behind bracket) relexed

theorem Relexes.lexeme
    (relexes : Relexes token.following (offset + Text.width (c :: front)) text lexemes)
    (read : piece mode c (front ++ text) = .ok (.lexeme token front.length))
    (later : Lexes token.following (offset + Text.width (c :: front)) text lexemes) :
    Relexes mode offset (c :: (front ++ text))
      (⟨token, offset, offset + Text.width (c :: front)⟩ :: lexemes) := by
  intro spans blankable
  rcases blankable.inside_or_outside with ⟨span, rest, rfl, started⟩ | outside
  · exact relexes.held read later blankable started
  · exact relexes.kept read later blankable outside

end Steps

/-- Blanking ranges of lexemes removes just the lexemes in them. -/
theorem lexes_blankFrom {mode : Mode} {offset : Nat} {text : List Char} {lexemes : List Lexeme}
    (lexes : Lexes mode offset text lexemes) : Relexes mode offset text lexemes := by
  induction lexes with
  | done => exact fun spans _ => .done
  | gap read later inductionHypothesis => exact inductionHypothesis.gap read later
  | lexeme read later inductionHypothesis => exact inductionHypothesis.lexeme read later

theorem lexes_blank {mode : Mode} {text : List Char} {lexemes : List Lexeme} {spans : List Span}
    (lexes : Lexes mode 0 text lexemes) (blankable : Blankable 0 lexemes spans) :
    Lexes mode 0 (blankFrom 0 spans text) (remaining spans lexemes) := by
  have relexed := lexes_blankFrom lexes spans blankable
  rw [blankedMode_outside fun span _ => Nat.zero_le span.start] at relexed
  exact relexed

end Dialect

end AutoloadIndex
