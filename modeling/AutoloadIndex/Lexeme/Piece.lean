import AutoloadIndex.Lexeme.Lexer

set_option autoImplicit false

/-!
The pieces of code, each with what it takes to read it. What one piece takes excludes all others, so
whatever holds of the lexer in code is proved piece by piece.
-/

namespace AutoloadIndex.Lexeme

def Piece.more : Piece → Nat
  | gap more => more
  | lexeme _ more => more

def Quote.token : Quote → List Char → Token
  | backtick, _ => .template
  | _, text => .str text

theorem Quote.token_cases (quote : Quote) (text : List Char) :
    quote.token text = .template ∨ quote.token text = .str text := by
  cases quote with
  | backtick => exact .inl rfl
  | single | double => exact .inr rfl

def startsVariable (rest : List Char) : Bool := rest.head?.any fun d => isNameStart d && d != '\\'

/-- A character with which nothing longer begins. -/
structure Alone (c : Char) (rest : List Char) : Prop where
  visible : isSpace c = false
  notHash : c ≠ '#'
  unquoted : ∀ quote : Quote, c ≠ quote.mark
  notDigit : c.isDigit = false
  unnamed : isNameStart c = false
  notClosing : ¬ (c = '?' ∧ rest.head? = some '>')
  notNullsafe : ¬ (c = '?' ∧ rest.take 2 = ['-', '>'])
  notArrow : ¬ (c = '-' ∧ rest.head? = some '>')
  notColons : ¬ (c = ':' ∧ rest.head? = some ':')
  notLine : ¬ (c = '/' ∧ rest.head? = some '/')
  notBlock : ¬ (c = '/' ∧ rest.head? = some '*')
  notHeredoc : ¬ (c = '<' ∧ rest.take 2 = ['<', '<'])
  notVariable : ¬ (c = '$' ∧ startsVariable rest = true)

inductive CodePiece (c : Char) (rest : List Char) : Except (LexFault × Nat) Piece → Prop where
  | space : isSpace c = true → CodePiece c rest (.ok (.gap 0))
  | closeTag : c = '?' → rest.head? = some '>' → CodePiece c rest (.ok (.lexeme .closeTag 1))
  | nullsafe : c = '?' → rest.take 2 = ['-', '>'] → CodePiece c rest (.ok (.lexeme .arrow 2))
  | arrow : c = '-' → rest.head? = some '>' → CodePiece c rest (.ok (.lexeme .arrow 1))
  | doubleColon : c = ':' → rest.head? = some ':' →
      CodePiece c rest (.ok (.lexeme .doubleColon 1))
  | attributes : c = '#' → rest.head? = some '[' →
      CodePiece c rest (.ok (.lexeme (.punct '#') 0))
  | lineComment : c = '/' ∧ rest.head? = some '/' ∨ c = '#' ∧ rest.head? ≠ some '[' →
      CodePiece c rest (.ok (.gap (lineComment rest)))
  | blockComment {more : Nat} : c = '/' → rest.head? = some '*' →
      blockComment rest.tail = some more → CodePiece c rest (.ok (.gap (more + 1)))
  | openComment : c = '/' → rest.head? = some '*' → Lexeme.blockComment rest.tail = none →
      CodePiece c rest (.error (.unterminatedComment, 0))
  | quoted {quote : Quote} {more : Nat} : c = quote.mark → quotedExtent quote rest = .ok more →
      CodePiece c rest (.ok (.lexeme (quote.token (c :: rest.take more)) more))
  | openQuoted {quote : Quote} {fault : LexFault × Nat} : c = quote.mark →
      quotedExtent quote rest = .error fault → CodePiece c rest (.error fault)
  | heredoc {more : Nat} : c = '<' → rest.take 2 = ['<', '<'] →
      heredocExtent (rest.drop 2) = .ok more →
      CodePiece c rest (.ok (.lexeme .template (more + 2)))
  | openHeredoc {fault : LexFault} : c = '<' → rest.take 2 = ['<', '<'] →
      heredocExtent (rest.drop 2) = .error fault → CodePiece c rest (.error (fault, 0))
  | variableName : c = '$' → startsVariable rest = true →
      CodePiece c rest (.ok (.lexeme .varName (rest.takeWhile isNameChar).length))
  | number : c.isDigit = true →
      CodePiece c rest (.ok (.lexeme .number (rest.takeWhile isNumberChar).length))
  | name : isNameStart c = true → CodePiece c rest
      (.ok (.lexeme (.ident (c :: rest.takeWhile isNameChar)) (rest.takeWhile isNameChar).length))
  | mark : Alone c rest → CodePiece c rest (.ok (.lexeme (.punct c) 0))

theorem ne_of_isNameChar {c : Char} (named : isNameChar c = true) :
    isSpace c = false ∧ ∀ d, isNameChar d = false → c ≠ d := by
  have other : ∀ d, isNameChar d = false → c ≠ d := by
    rintro d unnamed rfl
    exact absurd named (by simp [unnamed])
  refine ⟨?_, other⟩
  simp [isSpace, other ' ' (by decide), other '\t' (by decide), other '\n' (by decide),
    other '\x0c' (by decide), other '\r' (by decide)]

theorem isNameChar_of_isDigit {c : Char} (digit : c.isDigit = true) : isNameChar c = true := by
  simp [isNameChar, Char.isAlphanum, digit]

theorem isNameChar_of_isNameStart {c : Char} (starts : isNameStart c = true) :
    isNameChar c = true := by
  simp only [isNameStart, isNameChar, Char.isAlphanum, Bool.or_eq_true] at starts ⊢
  rcases starts with ((alpha | mark) | mark) | wide
  · exact .inl (.inl (.inl (.inl alpha)))
  · exact .inl (.inl (.inr mark))
  · exact .inl (.inr mark)
  · exact .inr wide

theorem isAlpha_eq (c : Char) : c.isAlpha = (decide ('A'.val ≤ c.val ∧ c.val ≤ 'Z'.val) ||
    decide ('a'.val ≤ c.val) && decide (c.val ≤ 'z'.val)) :=
  rfl

theorem notDigit_of_isNameStart {c : Char} (starts : isNameStart c = true) : c.isDigit = false := by
  rw [Bool.eq_false_iff]
  intro digit
  simp only [Char.isDigit, Bool.and_eq_true, decide_eq_true_eq, ge_iff_le, UInt32.le_iff_toNat_le]
    at digit
  simp only [isNameStart, isAlpha_eq, Bool.or_eq_true, Bool.and_eq_true, decide_eq_true_eq,
    beq_iff_eq, UInt32.le_iff_toNat_le] at starts
  have code : c.val.toNat = c.toNat := rfl
  have zero : '0'.val.toNat = 48 := rfl
  have nine : '9'.val.toNat = 57 := rfl
  have upper : 'A'.val.toNat = 65 := rfl
  have lower : 'a'.val.toNat = 97 := rfl
  rcases starts with (((_ | _) | rfl) | rfl) | _
  all_goals first | omega | exact absurd digit (by decide)

theorem quotedPiece_reads {c : Char} {quote : Quote} (mark : c = quote.mark) (rest : List Char)
    {token : Nat → Token} (isToken : ∀ more, token more = quote.token (c :: rest.take more)) :
    CodePiece c rest (quotedPiece quote rest token) := by
  unfold quotedPiece
  cases extent : quotedExtent quote rest with
  | error fault => exact .openQuoted mark extent
  | ok more =>
      rw [Except.map, isToken]
      exact .quoted mark extent

theorem codePiece_reads (c : Char) (rest : List Char) : CodePiece c rest (codePiece c rest) := by
  unfold codePiece
  by_cases space : isSpace c = true
  · rw [if_pos space]
    exact .space space
  rw [if_neg space]
  by_cases closing : c = '?' ∧ rest.head? = some '>'
  · rw [if_pos closing]
    exact .closeTag closing.1 closing.2
  rw [if_neg closing]
  by_cases nullsafe : c = '?' ∧ rest.take 2 = ['-', '>']
  · rw [if_pos nullsafe]
    exact .nullsafe nullsafe.1 nullsafe.2
  rw [if_neg nullsafe]
  by_cases arrow : c = '-' ∧ rest.head? = some '>'
  · rw [if_pos arrow]
    exact .arrow arrow.1 arrow.2
  rw [if_neg arrow]
  by_cases colons : c = ':' ∧ rest.head? = some ':'
  · rw [if_pos colons]
    exact .doubleColon colons.1 colons.2
  rw [if_neg colons]
  by_cases hash : c = '#'
  · rw [if_pos hash]
    by_cases opens : rest.head? = some '['
    · rw [if_pos opens]
      exact .attributes hash opens
    · rw [if_neg opens]
      exact .lineComment (.inr ⟨hash, opens⟩)
  rw [if_neg hash]
  by_cases slashes : c = '/' ∧ rest.head? = some '/'
  · rw [if_pos slashes]
    exact .lineComment (.inl slashes)
  rw [if_neg slashes]
  by_cases comment : c = '/' ∧ rest.head? = some '*'
  · rw [if_pos comment]
    cases closed : blockComment rest.tail with
    | none => exact .openComment comment.1 comment.2 closed
    | some more => exact .blockComment comment.1 comment.2 closed
  rw [if_neg comment]
  by_cases single : c = '\''
  · rw [if_pos single]
    exact @quotedPiece_reads c .single single rest _ fun _ => by rw [single]; rfl
  rw [if_neg single]
  by_cases double : c = '"'
  · rw [if_pos double]
    exact @quotedPiece_reads c .double double rest _ fun _ => by rw [double]; rfl
  rw [if_neg double]
  by_cases backtick : c = '\x60'
  · rw [if_pos backtick]
    exact @quotedPiece_reads c .backtick backtick rest _ fun _ => rfl
  rw [if_neg backtick]
  by_cases heredoc : c = '<' ∧ rest.take 2 = ['<', '<']
  · rw [if_pos heredoc]
    cases extent : heredocExtent (rest.drop 2) with
    | error fault => exact .openHeredoc heredoc.1 heredoc.2 extent
    | ok more => exact .heredoc heredoc.1 heredoc.2 extent
  rw [if_neg heredoc]
  by_cases variableName : c = '$' ∧ rest.head?.any fun d => isNameStart d && d != '\\'
  · rw [if_pos variableName]
    exact .variableName variableName.1 variableName.2
  rw [if_neg variableName]
  by_cases digit : c.isDigit = true
  · rw [if_pos digit]
    exact .number digit
  rw [if_neg digit]
  by_cases named : isNameStart c = true
  · rw [if_pos named]
    exact .name named
  rw [if_neg named]
  have unquoted : ∀ quote : Quote, c ≠ quote.mark := by
    rintro (- | - | -)
    · exact single
    · exact double
    · exact backtick
  exact .mark ⟨Bool.eq_false_iff.mpr space, hash, unquoted, Bool.eq_false_iff.mpr digit,
    Bool.eq_false_iff.mpr named, closing, nullsafe, arrow, colons, slashes, comment, heredoc,
    variableName⟩

theorem exists_behind_two {text : List Char} {d e : Char} (marks : text.take 2 = [d, e]) :
    ∃ more, text = d :: e :: more := by
  have whole := List.take_append_drop 2 text
  rw [marks] at whole
  exact ⟨text.drop 2, whole.symm⟩

/-- No two pieces can be read at one place. -/
theorem CodePiece.eq {c : Char} {rest : List Char} {found : Except (LexFault × Nat) Piece}
    (reads : CodePiece c rest found) : codePiece c rest = found := by
  cases reads with
  | space space => simp [codePiece, space]
  | closeTag mark next => simp [codePiece, isSpace, mark, next]
  | nullsafe mark next =>
      obtain ⟨more, rfl⟩ := exists_behind_two next
      simp [codePiece, isSpace, mark]
  | arrow mark next => simp [codePiece, isSpace, mark, next]
  | doubleColon mark next => simp [codePiece, isSpace, mark, next]
  | attributes mark next => simp [codePiece, isSpace, mark, next]
  | lineComment opens =>
      rcases opens with ⟨mark, next⟩ | ⟨mark, next⟩
      · simp [codePiece, isSpace, mark, next]
      · simp [codePiece, isSpace, mark, next]
  | blockComment mark next closed => simp [codePiece, isSpace, mark, next, closed]
  | openComment mark next unclosed => simp [codePiece, isSpace, mark, next, unclosed]
  | @quoted quote more mark extent =>
      subst mark
      cases quote <;>
        simp [codePiece, isSpace, Quote.mark, Quote.token, stringPiece, quotedPiece, extent,
          Except.map]
  | @openQuoted quote fault mark unclosed =>
      subst mark
      cases quote <;>
        simp [codePiece, isSpace, Quote.mark, stringPiece, quotedPiece, unclosed, Except.map]
  | heredoc mark next extent => simp [codePiece, isSpace, mark, next, extent]
  | openHeredoc mark next unclosed => simp [codePiece, isSpace, mark, next, unclosed]
  | variableName mark next =>
      unfold startsVariable at next
      simp [codePiece, isSpace, mark, next]
  | number digit =>
      obtain ⟨visible, other⟩ := ne_of_isNameChar (isNameChar_of_isDigit digit)
      simp [codePiece, visible, digit, other '?' (by decide), other '-' (by decide),
        other ':' (by decide), other '#' (by decide), other '/' (by decide),
        other '\'' (by decide), other '"' (by decide), other '\x60' (by decide),
        other '<' (by decide), other '$' (by decide)]
  | name named =>
      obtain ⟨visible, other⟩ := ne_of_isNameChar (isNameChar_of_isNameStart named)
      simp [codePiece, visible, notDigit_of_isNameStart named, named, other '?' (by decide),
        other '-' (by decide), other ':' (by decide), other '#' (by decide), other '/' (by decide),
        other '\'' (by decide), other '"' (by decide), other '\x60' (by decide),
        other '<' (by decide), other '$' (by decide)]
  | mark alone =>
      have single : ¬ c = '\'' := alone.unquoted .single
      have double : ¬ c = '"' := alone.unquoted .double
      have backtick : ¬ c = '\x60' := alone.unquoted .backtick
      have notVariable := alone.notVariable
      unfold startsVariable at notVariable
      simp only [codePiece, alone.visible, alone.notDigit, alone.unnamed, Bool.false_eq_true,
        if_neg alone.notHash, if_neg single, if_neg double, if_neg backtick,
        if_neg alone.notClosing, if_neg alone.notNullsafe, if_neg alone.notArrow,
        if_neg alone.notColons, if_neg alone.notLine, if_neg alone.notBlock,
        if_neg alone.notHeredoc, if_neg notVariable, if_false]

theorem codePiece_eq_iff {c : Char} {rest : List Char} {found : Except (LexFault × Nat) Piece} :
    codePiece c rest = found ↔ CodePiece c rest found :=
  ⟨fun read => read ▸ codePiece_reads c rest, CodePiece.eq⟩

end AutoloadIndex.Lexeme
