import AutoloadIndex.Proofs.ByteStrings
import AutoloadIndex.Proofs.ElementLowering
import AutoloadIndex.Proofs.Partition
import AutoloadIndex.Symbol.Literal

set_option autoImplicit false

/-!
Values of string literals. A string of the lexer has a value unless it is double-quoted and a
dollar sign that no backslash hides begins an insertion, as far as the character behind it is one of
ASCII: a variable whose name begins beyond ASCII is taken for text.
-/

namespace AutoloadIndex

namespace Literal

/-- Texts that are read to their end from the left, where a backslash hides the character behind
it. -/
inductive Complete : List Char → Prop where
  | nil : Complete []
  | plain {c : Char} {rest : List Char} (visible : c ≠ '\\') (later : Complete rest) :
      Complete (c :: rest)
  | escape (hidden : Char) {rest : List Char} (later : Complete rest) :
      Complete ('\\' :: hidden :: rest)

/-- Whether a dollar sign that is not hidden stands in front of a character of the class. -/
def Interpolates (opens : Char → Bool) (text : List Char) : Prop :=
  ∃ front c back, text = front ++ '$' :: c :: back ∧ Complete front ∧ opens c = true

section Interpolates

variable {opens : Char → Bool} {c : Char} {rest : List Char}

theorem not_interpolates_short {text : List Char} (short : text.length ≤ 1) :
    ¬ Interpolates opens text := by
  rintro ⟨front, c, back, rfl, -, -⟩
  rw [List.length_append, List.length_cons, List.length_cons] at short
  omega

theorem interpolates_escape (hidden : Char) :
    Interpolates opens ('\\' :: hidden :: rest) ↔ Interpolates opens rest := by
  constructor
  · rintro ⟨front, c, back, whole, complete, opened⟩
    cases complete with
    | nil => cases whole
    | plain visible later => exact absurd (List.cons.inj whole).1.symm visible
    | escape _ later =>
        obtain ⟨-, behind⟩ := List.cons.inj whole
        exact ⟨_, c, back, (List.cons.inj behind).2, later, opened⟩
  · rintro ⟨front, c, back, rfl, complete, opened⟩
    exact ⟨_, c, back, rfl, .escape hidden complete, opened⟩

theorem interpolates_cons (visible : c ≠ '\\') :
    Interpolates opens (c :: rest) ↔
      c = '$' ∧ rest.head?.any opens = true ∨ Interpolates opens rest := by
  constructor
  · rintro ⟨front, d, back, whole, complete, opened⟩
    cases complete with
    | nil =>
        obtain ⟨rfl, rfl⟩ := List.cons.inj whole
        exact .inl ⟨rfl, opened⟩
    | plain _ later => exact .inr ⟨_, d, back, (List.cons.inj whole).2, later, opened⟩
    | escape hidden later => exact absurd (List.cons.inj whole).1 visible
  · rintro (⟨rfl, opened⟩ | ⟨front, d, back, rfl, complete, opened⟩)
    · cases rest with
      | nil => cases opened
      | cons d back => exact ⟨[], d, back, rfl, .nil, opened⟩
    · exact ⟨_, d, back, rfl, .plain visible complete, opened⟩

end Interpolates

section Body

variable {quote c d : Char} {rest : List Char}

theorem body_escape (escaped : isEscaped quote d = true) :
    body quote ('\\' :: d :: rest) = (body quote rest).map (d :: ·) := by
  simp [body, escaped]

theorem body_plain (visible : c ≠ '\\')
    (plain : ¬ (c = '$' ∧ quote = '"' ∧ rest.head?.any startsInterpolation = true)) :
    body quote (c :: rest) = (body quote rest).map (c :: ·) := by
  cases rest with
  | nil => rfl
  | cons d rest =>
      rw [body, if_neg visible]
      exact if_neg plain

/-- Only insertions leave a literal without a value. -/
theorem body_eq_none_iff (quote : Char) (text : List Char) :
    body quote text = none ↔ quote = '"' ∧ Interpolates startsInterpolation text := by
  fun_induction body quote text with
  | case1 => simp [not_interpolates_short]
  | case2 c => simp [not_interpolates_short]
  | case3 d rest escaped inductionHypothesis =>
      rw [Option.map_eq_none_iff, inductionHypothesis, interpolates_escape]
  | case4 d rest plain inductionHypothesis =>
      rw [Option.map_eq_none_iff, inductionHypothesis, interpolates_escape]
      refine and_congr_right ?_
      rintro rfl
      have visible : d ≠ '\\' := by
        rintro rfl
        exact plain rfl
      have text : d ≠ '$' := by
        rintro rfl
        exact plain rfl
      rw [interpolates_cons visible]
      simp [text]
  | case5 c d rest visible dollar =>
      refine iff_of_true rfl ⟨dollar.2.1, (interpolates_cons visible).mpr (.inl ?_)⟩
      exact ⟨dollar.1, dollar.2.2⟩
  | case6 c d rest visible plain inductionHypothesis =>
      rw [Option.map_eq_none_iff, inductionHypothesis]
      refine and_congr_right fun isDouble => ?_
      rw [interpolates_cons visible]
      have text : ¬ (c = '$' ∧ (d :: rest).head?.any startsInterpolation = true) :=
        fun opened => plain ⟨opened.1, isDouble, opened.2⟩
      simp only [text, false_or]

theorem isBlank_of_isQuote (isQuote : isQuote quote = true) : Text.isBlank quote = false := by
  simp only [Literal.isQuote, Bool.or_eq_true, beq_iff_eq] at isQuote
  rcases isQuote with rfl | rfl <;> rfl

theorem value_quoted (isQuote : isQuote quote = true) (text : List Char) :
    value (quote :: (text ++ [quote])) = body quote text := by
  have visible := isBlank_of_isQuote isQuote
  have trimmed : trimBlank (quote :: (text ++ [quote])) = quote :: (text ++ [quote]) := by
    simp [trimBlank, visible]
  rw [value, trimmed]
  simp [isQuote]

end Body

end Literal

namespace Lexeme

def Frame.mark : Frame → Char
  | quoted quote _ => quote.mark
  | braces .. => '}'

def lastMark (top : Frame) : List Frame → Char
  | [] => top.mark
  | outer :: others => lastMark outer others

theorem lastMark_of_mark {top next : Frame} (same : next.mark = top.mark) (below : List Frame) :
    lastMark next below = lastMark top below := by
  cases below with
  | nil => exact same
  | cons outer others => rfl

section Turns

variable {top next : Frame} {below : List Frame} {place stop more : Nat} {c : Char}
  {rest text : List Char}

theorem mark_of_closes (closes : turn top place c rest = .closes) : c = top.mark := by
  cases top <;> simp only [turn, Frame.mark] at closes ⊢ <;> grind

theorem mark_of_stays (stays : turn top place c rest = .stays next more) :
    next.mark = top.mark := by
  cases top <;> simp only [turn] at stays <;> grind [Frame.mark]

theorem literalEnd_mark (ended : literalEnd top below place text = .ok stop) :
    ∃ body behind, text = body ++ lastMark top below :: behind ∧
      stop = place + body.length + 1 := by
  induction size : text.length using Nat.strongRecOn generalizing top below place text with
  | ind _ inductionHypothesis =>
      subst size
      cases text with
      | nil => cases (literalEnd_nil top below place).symm.trans ended
      | cons c rest =>
          have later : ∀ {inner : Frame} {outer : List Frame} {more : Nat},
              literalEnd inner outer (place + (more + 1)) (rest.drop more) = .ok stop →
                lastMark inner outer = lastMark top below →
                  ∃ body behind, c :: rest = body ++ lastMark top below :: behind ∧
                    stop = place + body.length + 1 := by
            intro inner outer more ended same
            have shorter : (rest.drop more).length < (c :: rest).length := by
              rw [List.length_drop, List.length_cons]
              omega
            obtain ⟨body, behind, whole, isStop⟩ := inductionHypothesis _ shorter ended rfl
            have filled : more < rest.length := by
              have length := congrArg List.length whole
              rw [List.length_drop, List.length_append, List.length_cons] at length
              omega
            refine ⟨c :: rest.take more ++ body, behind, ?_, ?_⟩
            · rw [← same, List.append_assoc, ← whole, List.cons_append, List.take_append_drop]
            · rw [isStop, List.length_append, List.length_cons, List.length_take]
              omega
          rw [literalEnd_cons] at ended
          cases isTurn : turn top place c rest with
          | closes =>
              rw [isTurn] at ended
              cases below with
              | nil =>
                  cases ended
                  exact ⟨[], rest, by rw [mark_of_closes isTurn]; rfl, rfl⟩
              | cons outer others => exact @later outer others 0 ended rfl
          | stays next more =>
              rw [isTurn] at ended
              exact later ended (lastMark_of_mark (mark_of_stays isTurn) below)
          | opens inner more =>
              rw [isTurn] at ended
              exact later ended rfl

end Turns

theorem quotedExtent_mark {quote : Quote} {text : List Char} {more : Nat}
    (found : quotedExtent quote text = .ok more) :
    ∃ body, text.take more = body ++ [quote.mark] := by
  obtain ⟨stop, ended, rfl⟩ : ∃ stop, literalEnd (.quoted quote 0) [] 1 text = .ok stop ∧
      stop - 1 = more := by
    unfold quotedExtent at found
    cases ended : literalEnd (.quoted quote 0) [] 1 text with
    | error fault => simp [ended, Except.map] at found
    | ok stop =>
        rw [ended] at found
        exact ⟨stop, rfl, Except.ok.inj found⟩
  obtain ⟨body, behind, rfl, rfl⟩ := literalEnd_mark ended
  refine ⟨body, ?_⟩
  rw [List.append_cons, List.take_left']
  · rfl
  · simp
    omega

theorem codePiece_string {c : Char} {rest text : List Char} {more : Nat}
    (read : codePiece c rest = .ok (.lexeme (.str text) more)) :
    ∃ body, Literal.isQuote c = true ∧ text = c :: (body ++ [c]) := by
  generalize isText : Token.str text = token at read
  cases codePiece_eq_iff.mp read with
  | @quoted quote _ mark extent =>
      obtain ⟨body, isBody⟩ := quotedExtent_mark extent
      rw [isBody, ← mark] at isText
      cases quote with
      | backtick => cases isText
      | single | double => exact ⟨body, by rw [mark]; rfl, Token.str.inj isText⟩
  | _ => cases isText

theorem Lexes.quoted {mode : Mode} {offset : Nat} {source : List Char} {lexemes : List Lexeme}
    (lexes : Lexes mode offset source lexemes) :
    ∀ lexeme ∈ lexemes, ∀ text, lexeme.token = .str text →
      ∃ quote body, Literal.isQuote quote = true ∧ text = quote :: (body ++ [quote]) := by
  induction lexes with
  | done => simp
  | gap read later inductionHypothesis => exact inductionHypothesis
  | @lexeme mode offset c front text token lexemes read later inductionHypothesis =>
      rw [List.forall_mem_cons]
      refine ⟨?_, inductionHypothesis⟩
      rintro text rfl
      cases mode with
      | code => exact ⟨c, codePiece_string read⟩
      | html => cases (piece_openTag_iff read).mpr rfl

end Lexeme

namespace Literal

/-- Whether a dollar sign in front of the character begins an insertion: with a brace, or with the
first character of a variable. -/
def opensInsertion (c : Char) : Bool := c == '{' || (Lexeme.isNameStart c && c != '\\')

theorem opensInsertion_of_wide {c : Char} (wide : 0x80 ≤ c.toNat) : opensInsertion c = true := by
  have notSeparator : c ≠ '\\' := by
    rintro rfl
    exact absurd wide (by decide)
  simp [opensInsertion, Lexeme.isNameStart, wide, notSeparator]

theorem startsInterpolation_eq (c : Char) :
    startsInterpolation c = (opensInsertion c && decide (c.toNat < 0x80)) := by
  by_cases ascii : c.toNat < 0x80
  · have notWide : ¬ 0x80 ≤ c.toNat := Nat.not_le.mpr ascii
    by_cases separator : c = '\\'
    · subst separator
      rfl
    · have other : (c == '\\') = false := beq_false_of_ne separator
      have named : (Lexeme.isNameStart c && c != '\\') = (c.isAlpha || c == '_') := by
        simp [Lexeme.isNameStart, notWide, bne, other]
      rw [opensInsertion, named, decide_eq_true ascii, Bool.and_true, Bool.or_comm]
      rfl
  · have notAlpha : c.isAlpha = false := by
      rw [Bool.eq_false_iff]
      exact fun letter => ascii (Dialect.isAlpha_ascii letter)
    have notMark : ∀ mark : Char, mark.toNat < 0x80 → c ≠ mark := by
      rintro mark low rfl
      exact ascii low
    simp [startsInterpolation, ascii, notAlpha, notMark '_' (by decide), notMark '{' (by decide)]

theorem interpolates_cases (text : List Char) :
    Interpolates opensInsertion text ↔ Interpolates startsInterpolation text ∨
      Interpolates (fun c => decide (0x80 ≤ c.toNat)) text := by
  constructor
  · rintro ⟨front, c, back, whole, complete, opened⟩
    by_cases ascii : c.toNat < 0x80
    · refine .inl ⟨front, c, back, whole, complete, ?_⟩
      simp [startsInterpolation_eq, opened, ascii]
    · exact .inr ⟨front, c, back, whole, complete, decide_eq_true (Nat.not_lt.mp ascii)⟩
  · rintro (⟨front, c, back, whole, complete, opened⟩ | ⟨front, c, back, whole, complete, wide⟩)
    · rw [startsInterpolation_eq, Bool.and_eq_true] at opened
      exact ⟨front, c, back, whole, complete, opened.1⟩
    · exact ⟨front, c, back, whole, complete, opensInsertion_of_wide (of_decide_eq_true wide)⟩

/-- A string of a source has no value exactly if it is double-quoted and a dollar sign that is not
hidden begins an insertion with a character of ASCII. So the value tells whether anything is
inserted, up to variables whose names begin beyond ASCII. -/
theorem value_eq_none_iff {mode : Lexeme.Mode} {source : List Char} {lexemes : List Lexeme}
    (lexed : Lexeme.lex mode source = .ok lexemes) :
    ∀ lexeme ∈ lexemes, ∀ text, lexeme.token = .str text →
      (value text = none ↔ ∃ body, text = '"' :: (body ++ ['"']) ∧
        Interpolates (fun c => opensInsertion c && decide (c.toNat < 0x80)) body) ∧
      ∀ body, text = '"' :: (body ++ ['"']) →
        (Interpolates opensInsertion body ↔
          value text = none ∨ Interpolates (fun c => decide (0x80 ≤ c.toNat)) body) := by
  intro lexeme membership text isString
  have lexes : Lexeme.Lexes mode 0 source lexemes := Lexeme.lexes_of_lexFrom lexed
  obtain ⟨quote, body, isQuote, rfl⟩ := lexes.quoted lexeme membership text isString
  have sameBody : ∀ other, quote :: (body ++ [quote]) = '"' :: (other ++ ['"']) ↔
      quote = '"' ∧ body = other := by
    intro other
    constructor
    · intro same
      obtain ⟨rfl, same⟩ := List.cons.inj same
      exact ⟨rfl, List.append_cancel_right same⟩
    · rintro ⟨rfl, rfl⟩
      rfl
  have noValue := body_eq_none_iff quote body
  rw [← value_quoted isQuote] at noValue
  constructor
  · simp only [sameBody, noValue, ← startsInterpolation_eq]
    constructor
    · rintro ⟨isDouble, inserted⟩
      exact ⟨body, ⟨isDouble, rfl⟩, inserted⟩
    · rintro ⟨_, ⟨isDouble, rfl⟩, inserted⟩
      exact ⟨isDouble, inserted⟩
  · intro other same
    obtain ⟨isDouble, rfl⟩ := (sameBody other).mp same
    rw [interpolates_cases, noValue, and_iff_right isDouble]

/-- Strings in which a dollar sign stands in single quotes, is hidden, and stands behind a hidden
backslash. -/
def dollarSource : List Char := "<?php '$x' \"\\$y\" \"\\\\$z\"".toList

def dollarLexemes : List Lexeme := [
  ⟨.openTag, 0, 5⟩, ⟨.str ['\'', '$', 'x', '\''], 6, 10⟩,
  ⟨.str ['"', '\\', '$', 'y', '"'], 11, 16⟩, ⟨.str ['"', '\\', '\\', '$', 'z', '"'], 17, 23⟩]

theorem value_dollarSource :
    Lexeme.lex .html dollarSource = .ok dollarLexemes ∧
      value ['\'', '$', 'x', '\''] ≠ none ∧ value ['"', '\\', '$', 'y', '"'] ≠ none ∧
      value ['"', '\\', '\\', '$', 'z', '"'] = none := by
  have lexed : Lexeme.lex .html dollarSource = .ok dollarLexemes := by decide +kernel
  have inserted : Interpolates (fun c => opensInsertion c && decide (c.toNat < 0x80))
      ['\\', '\\', '$', 'z'] :=
    ⟨['\\', '\\'], 'z', [], rfl, .escape '\\' .nil, rfl⟩
  have third : (⟨.str ['"', '\\', '\\', '$', 'z', '"'], 17, 23⟩ : Lexeme) ∈ dollarLexemes := by
    decide
  refine ⟨lexed, by decide, by decide, ?_⟩
  exact (value_eq_none_iff lexed _ third _ rfl).1.mpr ⟨_, rfl, inserted⟩

/-- The variable begins beyond ASCII, and the string has a value. -/
theorem value_wideVariable :
    Lexeme.lex .html "<?php define(\"$é\", 1);".toList = .ok [
        ⟨.openTag, 0, 5⟩, ⟨.ident "define".toList, 6, 12⟩, ⟨.punct '(', 12, 13⟩,
        ⟨.str ['"', '$', 'é', '"'], 13, 18⟩, ⟨.punct ',', 18, 19⟩, ⟨.number, 20, 21⟩,
        ⟨.punct ')', 21, 22⟩, ⟨.punct ';', 22, 23⟩] ∧
      Interpolates opensInsertion ['$', 'é'] ∧
      value ['"', '$', 'é', '"'] = some ['$', 'é'] := by
  refine ⟨by decide +kernel, ⟨[], 'é', [], rfl, .nil, rfl⟩, ?_⟩
  decide

end Literal

end AutoloadIndex
