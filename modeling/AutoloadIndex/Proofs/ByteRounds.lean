import AutoloadIndex.Proofs.ByteExtents
import AutoloadIndex.Proofs.Relexing

set_option autoImplicit false

/-!
The rounds of the lexer on bytes. Each of them passes a gap and reads one piece of the text, so
bytes lead to the same lexemes as characters, and no round fails for a reason of its own.
-/

namespace AutoloadIndex.ByteLexer

open Lexeme (Mode Quote Piece CodePiece isSpace isNameStart isNameChar isNumberChar quotedExtent
  literalEnd lineComment blockComment heredocExtent stringPiece quotedPiece codePiece codePiece_reads htmlPiece
  piece lexFrom openTag? startsVariable exists_behind_two)

theorem skipQuoted_eq {source : List UInt8} {start : Nat} {quote : Quote} {rest : List Char}
    (reads : Reads source start (quote.mark :: rest)) :
    skipQuoted source quote start (start + 1) =
      match quotedExtent quote rest with
      | .ok more => .ok (start + Text.width (quote.mark :: rest.take more))
      | .error (fault, place) =>
        .error (.fault ⟨fault, start + Text.width ((quote.mark :: rest).take place)⟩) := by
  have atMark : offsetOf start (quote.mark :: rest) 1 = start + 1 := by
    simp [offsetOf, utf8Size_of_ascii (mark_ascii quote)]
  have skipped := @skipFrame_eq _ _ _ reads (.quoted quote 0) trivial 1
  rw [atMark] at skipped
  refine Eq.trans skipped ?_
  unfold quotedExtent
  rw [List.drop_succ_cons, List.drop_zero]
  cases ended : literalEnd (.quoted quote 0) [] 1 rest with
  | error blame => rfl
  | ok stop =>
      obtain ⟨more, rfl⟩ := Nat.exists_eq_add_of_lt (Lexeme.literalEnd_bounds ended).1
      rw [Nat.add_right_comm 1 more 1, Nat.add_comm]
      rfl

def roundOf (start : Nat) (c : Char) (rest : List Char) :
    Except (LexFault × Nat) Piece → Except Failure Round
  | .ok (.gap more) => .ok (.gap (start + Text.width (c :: rest.take more)))
  | .ok (.lexeme token more) =>
    .ok (.lexeme ⟨token, start, start + Text.width (c :: rest.take more)⟩)
  | .error (fault, place) =>
    .error (.fault ⟨fault, start + Text.width ((c :: rest).take place)⟩)

theorem stringRound_eq (front rest : List Char) (quote : Quote) :
    stringRound (front ++ quote.mark :: rest) quote (Text.width front) =
      roundOf (Text.width front) quote.mark rest (stringPiece quote rest) := by
  unfold stringRound stringPiece quotedPiece
  rw [skipQuoted_eq (Reads.of_append _ _)]
  cases extent : quotedExtent quote rest with
  | error blame => rfl
  | ok more =>
      have isSlice := cut_append front (quote.mark :: rest.take more) (rest.drop more)
      rw [List.cons_append, List.take_append_drop] at isSlice
      simp only [bind, Except.bind, isSlice]
      rfl

theorem ne_of_wide {c : Char} (wide : 0x80 ≤ c.toNat) (d : Char)
    (ascii : d.toNat < 0x80) : ¬ c = d := by
  rintro rfl
  omega

theorem not_isDigit_of_wide {c : Char} (wide : 0x80 ≤ c.toNat) : ¬ c.isDigit = true := by
  simp only [Char.isDigit, Bool.and_eq_true, decide_eq_true_eq, not_and, UInt32.not_le]
  intro _
  rw [UInt32.lt_iff_toNat_lt]
  exact Nat.lt_of_lt_of_le (by decide) wide

theorem codePiece_wide {c : Char} (wide : 0x80 ≤ c.toNat) (rest : List Char) :
    codePiece c rest = .ok (.lexeme (.ident (c :: rest.takeWhile isNameChar))
      (rest.takeWhile isNameChar).length) :=
  (CodePiece.name (by simp [isNameStart, wide])).eq

theorem codeRound_wide {c : Char} (wide : 0x80 ≤ c.toNat) (text : List Char) (start : Nat) :
    codeRound text start c = do
      let stop := skipWhile (Text.bytes text) isNameChar start
      let name ← cut text start stop
      return .lexeme ⟨.ident name, start, stop⟩ := by
  have named : isNameStart c = true := by simp [isNameStart, wide]
  simp [codeRound, ne_of_wide wide, not_isDigit_of_wide wide, named]

theorem nameRound_eq {front rest : List Char} {c : Char} (named : isNameChar c = true) :
    (do
      let stop := skipWhile (Text.bytes (front ++ c :: rest)) isNameChar (Text.width front)
      let name ← cut (front ++ c :: rest) (Text.width front) stop
      return .lexeme ⟨.ident name, Text.width front, stop⟩ : Except Failure Round) =
      roundOf (Text.width front) c rest (.ok (.lexeme (.ident (c :: rest.takeWhile isNameChar))
        (rest.takeWhile isNameChar).length)) := by
  obtain ⟨stop, isName, -⟩ := cut_name front (c :: rest)
  rw [List.takeWhile_cons_of_pos named] at stop isName
  simp only [stop, isName, roundOf, take_takeWhile]
  rfl

theorem width_behind (start : Nat) (marks text : List Char) :
    start + Text.width marks + Text.width text = start + Text.width (marks ++ text) := by
  rw [Text.width_append, Nat.add_assoc]

theorem skipLine_cons {source : List UInt8} {start : Nat} {c : Char} {rest : List Char}
    (reads : Reads source start (c :: rest)) (goesOn : c ≠ '\n' ∧ c ≠ '?') :
    skipLine source start = start + Text.width (c :: rest.take (lineComment rest)) := by
  have inLine : ¬ (c = '\n' ∨ (c = '?' ∧ rest.head? = some '>')) :=
    not_or.mpr ⟨goesOn.1, fun tag => goesOn.2 tag.1⟩
  rw [skipLine_eq reads, lineComment, if_neg inLine, List.take_succ_cons]

theorem blockRound_eq {source : List UInt8} {start : Nat} {rest : List Char}
    (reads : Reads source start ('/' :: '*' :: rest)) :
    (match skipBlock source (start + 2) with
      | some stop => .ok (.gap stop)
      | none => .error (.fault ⟨.unterminatedComment, start⟩) : Except Failure Round) =
      roundOf start '/' ('*' :: rest)
        (match blockComment rest with
        | some more => .ok (.gap (more + 1))
        | none => .error (.unterminatedComment, 0)) := by
  have behind : Reads source (start + 2) rest := reads.tail.tail
  rw [skipBlock_eq behind]
  cases blockComment rest with
  | none => rfl
  | some more =>
      have stop : start + 2 + Text.width (rest.take more) =
          start + Text.width ('/' :: '*' :: rest.take more) := width_behind start ['/', '*'] _
      rw [Option.map_some, stop]
      rfl

theorem backtickRound_eq (front rest : List Char) :
    (do
      let stop ← skipQuoted (Text.bytes (front ++ Quote.backtick.mark :: rest)) .backtick
        (Text.width front) (Text.width front + 1)
      return .lexeme ⟨.template, Text.width front, stop⟩ : Except Failure Round) =
      roundOf (Text.width front) Quote.backtick.mark rest
        (quotedPiece .backtick rest fun _ => .template) := by
  unfold quotedPiece
  rw [skipQuoted_eq (Reads.of_append _ _)]
  cases quotedExtent .backtick rest <;> rfl

theorem skipHeredoc_marks (front text : List Char) :
    skipHeredoc (front ++ '<' :: '<' :: '<' :: text) (Text.width front) =
      match heredocExtent text with
      | .ok more => .ok (Text.width front + Text.width ('<' :: '<' :: '<' :: text.take more))
      | .error fault => .error (.fault ⟨fault, Text.width front⟩) := by
  have marks : Text.width (front ++ ['<', '<', '<']) = Text.width front + 3 := by
    rw [Text.width_append]
    rfl
  have split : front ++ '<' :: '<' :: '<' :: text = front ++ ['<', '<', '<'] ++ text :=
    (List.append_assoc front ['<', '<', '<'] text).symm
  rw [split, skipHeredoc_eq marks]
  cases heredocExtent text with
  | ok more => exact congrArg Except.ok (width_behind _ ['<', '<', '<'] _)
  | error fault => rfl

theorem heredocRound_eq (front rest : List Char) :
    (do
      let stop ← skipHeredoc (front ++ '<' :: '<' :: '<' :: rest) (Text.width front)
      return .lexeme ⟨.template, Text.width front, stop⟩ : Except Failure Round) =
      roundOf (Text.width front) '<' ('<' :: '<' :: rest)
        (match heredocExtent rest with
        | .ok more => .ok (.lexeme .template (more + 2))
        | .error fault => .error (fault, 0)) := by
  rw [skipHeredoc_marks]
  cases heredocExtent rest <;> rfl

theorem variableRound_eq {source : List UInt8} {start : Nat} {rest : List Char}
    (reads : Reads source start ('$' :: rest)) :
    .ok (.lexeme ⟨.varName, start, skipWhile source isNameChar (start + 1)⟩) =
      roundOf start '$' rest (.ok (.lexeme .varName (rest.takeWhile isNameChar).length)) := by
  have stop : start + 1 + Text.width (rest.takeWhile isNameChar) =
      start + Text.width ('$' :: rest.takeWhile isNameChar) := width_behind start ['$'] _
  have behind : Reads source (start + 1) rest := reads.tail
  rw [skipWhile_eq uniform_isNameChar behind, stop, roundOf, take_takeWhile]

theorem uniform_variableStart : Uniform fun d => isNameStart d && d != '\\' := by
  intro c d wide alsoWide
  have named : ∀ {e : Char}, 0x80 ≤ e.toNat → (isNameStart e && e != '\\') = true := by
    intro e isWide
    simp [isNameStart, isWide, ne_of_wide isWide '\\' (by decide)]
  exact (named wide).trans (named alsoWide).symm

theorem uniform_isNumberChar : Uniform isNumberChar := by
  refine Uniform.of_ascii fun c inNumber => ?_
  simp only [isNumberChar, Char.isAlphanum, Lexeme.isAlpha_eq, Char.isDigit, Bool.or_eq_true,
    Bool.and_eq_true, decide_eq_true_eq, beq_iff_eq, ge_iff_le, UInt32.le_iff_toNat_le] at inNumber
  rcases inNumber with ((((⟨-, upper⟩ | ⟨-, lower⟩) | ⟨-, digit⟩) | rfl) | rfl)
  · exact Nat.lt_of_le_of_lt upper (by decide)
  · exact Nat.lt_of_le_of_lt lower (by decide)
  · exact Nat.lt_of_le_of_lt digit (by decide)
  · decide
  · decide

theorem numberRound_eq {source : List UInt8} {start : Nat} {c : Char} {rest : List Char}
    (reads : Reads source start (c :: rest)) (digit : c.isDigit = true) :
    .ok (.lexeme ⟨.number, start, skipWhile source isNumberChar start⟩) =
      roundOf start c rest (.ok (.lexeme .number (rest.takeWhile isNumberChar).length)) := by
  have inNumber : isNumberChar c = true := by simp [isNumberChar, Char.isAlphanum, digit]
  rw [skipWhile_eq uniform_isNumberChar reads, List.takeWhile_cons_of_pos inNumber, roundOf,
    take_takeWhile]

/-- A round in code reads the piece that stands there. Beyond ASCII only the first byte is seen, and
every such byte leads to a name. -/
theorem codeRound_eq {front rest : List Char} {c d : Char} (visible : isSpace c = false)
    (found : byteAt (Text.bytes (front ++ c :: rest)) (Text.width front) = some d) :
    codeRound (front ++ c :: rest) (Text.width front) d =
      roundOf (Text.width front) c rest (codePiece c rest) := by
  have reads := Reads.of_append front (c :: rest)
  rcases reads.byte_cases with ⟨ascii, isByte⟩ | ⟨wide, e, isByte, isWide⟩
  · obtain rfl : c = d := Option.some.inj (isByte.symm.trans found)
    have behind := reads.tail
    rw [utf8Size_of_ascii ascii] at behind
    have arrow_iff : byteAt (Text.bytes (front ++ c :: rest)) (Text.width front + 1) = some '-' ∧
        byteAt (Text.bytes (front ++ c :: rest)) (Text.width front + 2) = some '>' ↔
          rest.take 2 = ['-', '>'] := behind.two_iff '-' '>' (by decide) (by decide)
    have heredoc_iff : byteAt (Text.bytes (front ++ c :: rest)) (Text.width front + 1) = some '<' ∧
        byteAt (Text.bytes (front ++ c :: rest)) (Text.width front + 2) = some '<' ↔
          rest.take 2 = ['<', '<'] := behind.two_iff '<' '<' (by decide) (by decide)
    have invisible : ¬ isSpace c = true := by simp [visible]
    have pieces := codePiece_reads c rest
    generalize read : codePiece c rest = piece at pieces ⊢
    unfold codeRound
    simp only [arrow_iff, heredoc_iff, behind.byteAt_iff '>' (by decide),
      behind.byteAt_iff ':' (by decide), behind.byteAt_iff '[' (by decide),
      behind.byteAt_iff '/' (by decide), behind.byteAt_iff '*' (by decide),
      behind.byteAt_any uniform_variableStart]
    cases pieces with
    | space space => exact absurd space invisible
    | closeTag mark next | arrow mark next | doubleColon mark next =>
        subst mark
        obtain ⟨rest, rfl⟩ := List.head?_eq_some_iff.mp next
        rfl
    | nullsafe mark next =>
        subst mark
        obtain ⟨rest, rfl⟩ := exists_behind_two next
        rfl
    | attributes mark next =>
        subst mark
        simp only [next]
        rfl
    | lineComment opens =>
        rcases opens with ⟨rfl, next⟩ | ⟨rfl, next⟩
        · simp only [next, skipLine_cons reads (by decide)]
          rfl
        · simp only [next, skipLine_cons reads (by decide)]
          rfl
    | blockComment mark next closed | openComment mark next unclosed =>
        subst mark
        obtain ⟨rest, rfl⟩ := List.head?_eq_some_iff.mp next
        rw [← read]
        exact blockRound_eq reads
    | @quoted quote more mark extent | @openQuoted quote fault mark unclosed =>
        subst mark
        rw [← read]
        cases quote with
        | single => exact stringRound_eq front rest .single
        | double => exact stringRound_eq front rest .double
        | backtick => exact backtickRound_eq front rest
    | heredoc mark next extent | openHeredoc mark next unclosed =>
        subst mark
        obtain ⟨rest, rfl⟩ := exists_behind_two next
        rw [← read]
        exact heredocRound_eq front rest
    | variableName mark starts =>
        subst mark
        rw [startsVariable] at starts
        simp only [starts]
        exact variableRound_eq reads
    | number digit =>
        obtain ⟨-, other⟩ := Lexeme.ne_of_isNameChar (Lexeme.isNameChar_of_isDigit digit)
        simp only [other '?' (by decide), other '-' (by decide), other ':' (by decide),
          other '#' (by decide), other '/' (by decide), other '\'' (by decide),
          other '"' (by decide), other '\x60' (by decide), other '<' (by decide),
          other '$' (by decide), digit, false_and, if_false, if_true]
        exact numberRound_eq reads digit
    | name named =>
        have inName := Lexeme.isNameChar_of_isNameStart named
        obtain ⟨-, other⟩ := Lexeme.ne_of_isNameChar inName
        simp only [other '?' (by decide), other '-' (by decide), other ':' (by decide),
          other '#' (by decide), other '/' (by decide), other '\'' (by decide),
          other '"' (by decide), other '\x60' (by decide), other '<' (by decide),
          other '$' (by decide), Lexeme.notDigit_of_isNameStart named, named, false_and, if_false,
          if_true, Bool.false_eq_true]
        exact nameRound_eq inName
    | mark alone =>
        have single : ¬ c = '\'' := alone.unquoted .single
        have double : ¬ c = '"' := alone.unquoted .double
        have backtick : ¬ c = '\x60' := alone.unquoted .backtick
        have notVariable := alone.notVariable
        unfold startsVariable at notVariable
        simp only [alone.notDigit, alone.unnamed, Bool.false_eq_true, if_neg alone.notHash,
          if_neg single, if_neg double, if_neg backtick, if_neg alone.notClosing,
          if_neg alone.notNullsafe, if_neg alone.notArrow, if_neg alone.notColons,
          if_neg alone.notLine, if_neg alone.notBlock, if_neg alone.notHeredoc,
          if_neg notVariable, if_false]
        rw [roundOf, List.take_zero, Text.width_cons, utf8Size_of_ascii ascii]
        rfl
  · obtain rfl : e = d := Option.some.inj (isByte.symm.trans found)
    have named : isNameChar c = true := by simp [isNameChar, wide]
    rw [codeRound_wide isWide, codePiece_wide wide, nameRound_eq named]

theorem lexFrom_spaces {spaces : List Char} (blank : ∀ c ∈ spaces, isSpace c = true)
    (offset : Nat) (text : List Char) :
    lexFrom .code offset (spaces ++ text) = lexFrom .code (offset + Text.width spaces) text := by
  induction spaces generalizing offset with
  | nil => rfl
  | cons c rest inductionHypothesis =>
      rw [List.forall_mem_cons] at blank
      have isGap : piece .code c (rest ++ text) = .ok (.gap 0) := if_pos blank.1
      rw [List.cons_append, lexFrom, isGap]
      simp only [List.take_zero, List.drop_zero, Text.width_cons, Text.width_nil, Nat.add_zero]
      rw [inductionHypothesis blank.2, Nat.add_assoc]

theorem lexFrom_html_gap {c : Char} {rest : List Char} (isGap : htmlPiece c rest = .gap 0)
    (offset : Nat) :
    lexFrom .html offset (c :: rest) = lexFrom .html (offset + c.utf8Size) rest := by
  have isPiece : piece .html c rest = .ok (.gap 0) := congrArg Except.ok isGap
  rw [lexFrom, isPiece]
  rfl

theorem lexFrom_lexeme {mode : Mode} {c : Char} {rest : List Char} {token : Token} {more : Nat}
    (isLexeme : piece mode c rest = .ok (.lexeme token more)) (offset : Nat) :
    lexFrom mode offset (c :: rest) =
      (lexFrom token.following (offset + Text.width (c :: rest.take more)) (rest.drop more)).map
        (⟨token, offset, offset + Text.width (c :: rest.take more)⟩ :: ·) := by
  rw [lexFrom, isLexeme]
  simp only
  cases lexFrom token.following (offset + Text.width (c :: rest.take more)) (rest.drop more) <;> rfl

theorem width_of_openTag {text : List Char} {more : Nat} (tag : Lexeme.OpenTag text more) :
    Text.width (text.take more) = more := by
  cases tag with
  | php word stop =>
      have letters := width_of_startsWith rfl word
      rw [List.take_succ_cons, Text.width_cons]
      exact congrArg (1 + ·) letters
  | hack word stop =>
      have letters := width_of_startsWith rfl word
      rw [List.take_succ_cons, Text.width_cons]
      exact congrArg (1 + ·) letters
  | echo next =>
      obtain ⟨rest, rfl⟩ := List.head?_eq_some_iff.mp next
      rfl
  | short stop => rfl

inductive Inline (source : List UInt8) (position : Nat) (text : List Char) : Prop where
  | tagless (skips : skipHtml source position = none) (lexes : lexFrom .html position text = .ok [])
  | tagged {front rest : List Char} {more : Nat} (whole : text = front ++ '<' :: rest)
      (skips : skipHtml source position = some (position + Text.width front,
        position + Text.width front + Text.width ('<' :: rest.take more)))
      (lexes : lexFrom .html position text =
        lexFrom .html (position + Text.width front) ('<' :: rest))
      (tag : htmlPiece '<' rest = .lexeme .openTag more)

theorem Inline.behind_gap {source : List UInt8} {position : Nat} {gap text : List Char}
    (later : Inline source (position + Text.width gap) text)
    (skips : skipHtml source position = skipHtml source (position + Text.width gap))
    (lexes : lexFrom .html position (gap ++ text) =
      lexFrom .html (position + Text.width gap) text) :
    Inline source position (gap ++ text) := by
  cases later with
  | tagless noTag nothing => exact .tagless (skips.trans noTag) (lexes.trans nothing)
  | @tagged front rest more whole found same tag =>
      subst whole
      rw [Nat.add_assoc position, ← Text.width_append] at found same
      exact .tagged (List.append_assoc gap front _).symm (skips.trans found) (lexes.trans same) tag

theorem inline_of_reads {source : List UInt8} {position : Nat} {text : List Char}
    (reads : Reads source position text) : Inline source position text := by
  induction size : text.length using Nat.strongRecOn generalizing position text with
  | ind _ inductionHypothesis =>
      subst size
      cases text with
      | nil =>
          refine .tagless ?_ ?_
          · rw [skipHtml, if_neg (by simp [reads.inside_iff])]
          · rw [lexFrom]
      | cons c rest =>
          have inside : position < source.length := reads.inside_iff.mpr (by simp)
          have marks_iff := reads.pair_iff '<' '?' (by decide) (by decide)
          by_cases marks : c = '<' ∧ rest.head? = some '?'
          · have isMarked := marks_iff.mpr marks
            obtain ⟨rfl, next⟩ := marks
            obtain ⟨later, rfl⟩ := List.head?_eq_some_iff.mp next
            have behind : Reads source (position + 2) later := reads.tail.tail
            have length := tagLength?_eq behind
            cases tag : openTag? ('?' :: later) with
            | none =>
                have first : htmlPiece '<' ('?' :: later) = .gap 0 := by simp [htmlPiece, tag]
                have second : htmlPiece '?' later = .gap 0 := by simp [htmlPiece]
                have shorter : later.length < ('<' :: '?' :: later).length := by
                  simp only [List.length_cons]
                  omega
                have rest := inductionHypothesis later.length shorter behind rfl
                refine @Inline.behind_gap _ _ ['<', '?'] _ rest ?_ ?_
                · rw [tag] at length
                  rw [skipHtml, if_pos inside, if_pos isMarked, length]
                  rfl
                · rw [List.cons_append, List.singleton_append, lexFrom_html_gap first,
                    lexFrom_html_gap second]
                  rfl
            | some more =>
                have bytes := width_of_openTag (Lexeme.openTag?_eq_some_iff.mp tag)
                have isTag : htmlPiece '<' ('?' :: later) = .lexeme .openTag more := by
                  simp [htmlPiece, tag]
                refine @Inline.tagged _ _ _ [] _ more rfl ?_ rfl isTag
                rw [tag] at length
                rw [skipHtml, if_pos inside, if_pos isMarked, length, Text.width_cons, bytes,
                  utf8Size_of_ascii (by decide), Nat.add_comm 1]
                rfl
          · have isGap : htmlPiece c rest = .gap 0 := by
              rcases Lexeme.htmlPiece_cases c rest with isGap | ⟨more, rfl, tag, -⟩
              · exact isGap
              · cases tag <;> exact absurd ⟨rfl, rfl⟩ marks
            have later := inductionHypothesis rest.length (by simp) reads.tail rfl
            refine @Inline.behind_gap _ _ [c] _ later ?_ (lexFrom_html_gap isGap position)
            have goesOn : skipHtml source position = skipHtml source (position + 1) := by
              rw [skipHtml, if_pos inside, if_neg (mt marks_iff.mp marks)]
            have passes : ∀ place, IsWide source place →
                skipHtml source place = skipHtml source (place + 1) := by
              intro place wide
              rw [skipHtml, if_pos wide.inside, if_neg]
              exact fun found => wide.ne '<' (by decide) found.1
            exact goesOn.trans (reads.skip fun _ => passes)

theorem run_gap {text : List Char} {mode : Mode} {position next : Nat}
    (isRound : round text mode position = .ok (.gap next)) (forward : position < next)
    (inside : next ≤ Text.width text) : run text mode position = run text mode next := by
  rw [run, isRound]
  simp only [if_neg (Nat.not_le.mpr forward), if_neg (Nat.not_lt.mpr inside)]

theorem run_lexeme {text : List Char} {mode : Mode} {position : Nat} {found : Lexeme}
    (isRound : round text mode position = .ok (.lexeme found)) (forward : position < found.stop)
    (inside : found.stop ≤ Text.width text) :
    run text mode position = (run text found.token.following found.stop).map (found :: ·) := by
  rw [run, isRound]
  simp only [if_neg (Nat.not_le.mpr forward), if_neg (Nat.not_lt.mpr inside)]
  cases run text found.token.following found.stop <;> rfl

/-- What a round comes to: nothing is left, or it reads the piece behind a gap. -/
inductive Ahead (front rest : List Char) (mode : Mode) : Prop where
  | done (isRound : round (front ++ rest) mode (Text.width front) = .ok .done)
      (lexes : lexFrom mode (Text.width front) rest = .ok [])
  | piece {gap later : List Char} {c : Char} (whole : rest = gap ++ c :: later)
      (isRound : round (front ++ rest) mode (Text.width front) =
        roundOf (Text.width front + Text.width gap) c later (piece mode c later))
      (lexes : lexFrom mode (Text.width front) rest =
        lexFrom mode (Text.width front + Text.width gap) (c :: later))

theorem drop_takeWhile (p : Char → Bool) (text : List Char) :
    text.drop (text.takeWhile p).length = text.dropWhile p := by
  have dropped := @List.drop_left _ (text.takeWhile p) (text.dropWhile p)
  rwa [List.takeWhile_append_dropWhile] at dropped

theorem ahead (front rest : List Char) (mode : Mode) : Ahead front rest mode := by
  have reads := Reads.of_append front rest
  cases mode with
  | html =>
      cases inline_of_reads reads with
      | tagless skips lexes =>
          refine .done ?_ lexes
          unfold round
          simp only [skips]
      | @tagged gap later more whole skips lexes tag =>
          have isPiece : piece .html '<' later = .ok (.lexeme .openTag more) :=
            congrArg Except.ok tag
          refine .piece whole ?_ lexes
          unfold round
          simp only [skips, isPiece]
          rfl
  | code =>
      have skipped := skipWhile_eq uniform_isSpace reads
      have behind := reads.behind isSpace
      have blank : ∀ c ∈ rest.takeWhile isSpace, isSpace c = true :=
        List.all_eq_true.mp List.all_takeWhile
      have split := takeWhile_split isSpace rest
      have spaces := lexFrom_spaces blank (Text.width front)
        (rest.drop (rest.takeWhile isSpace).length)
      rw [← split] at spaces
      cases isRest : rest.drop (rest.takeWhile isSpace).length with
      | nil =>
          rw [isRest] at spaces behind
          refine .done ?_ ?_
          · unfold round
            simp only [skipped, behind.byteAt_nil]
          · rw [spaces, lexFrom]
      | cons c later =>
          rw [isRest] at spaces behind split
          have visible : isSpace c = false := by
            have stops := List.head?_dropWhile_not isSpace rest
            rw [← drop_takeWhile, isRest] at stops
            exact stops
          refine .piece split ?_ spaces
          generalize rest.takeWhile isSpace = gap at *
          subst split
          obtain ⟨d, found⟩ := behind.exists_byte
          unfold round
          simp only [skipped, found]
          rw [← List.append_assoc, ← Text.width_append] at found ⊢
          exact codeRound_eq visible found

/-- On bytes the lexer finds what it finds on characters. -/
theorem run_eq (front rest : List Char) (mode : Mode) :
    run (front ++ rest) mode (Text.width front) =
      (lexFrom mode (Text.width front) rest).mapError .fault := by
  induction size : rest.length using Nat.strongRecOn generalizing front rest mode with
  | ind _ inductionHypothesis =>
      subst size
      cases ahead front rest mode with
      | done isRound lexes =>
          rw [run, isRound, lexes]
          rfl
      | @piece gap later c whole isRound lexes =>
          rw [lexes]
          cases isPiece : piece mode c later with
          | error blame =>
              rw [isPiece] at isRound
              rw [run, isRound, lexFrom, isPiece]
              rfl
          | ok found =>
              obtain ⟨taken, behind, rfl, length⟩ := Lexeme.exists_front isPiece
              have split : front ++ rest = front ++ (gap ++ c :: taken) ++ behind := by
                rw [whole]
                simp
              have shorter : behind.length < rest.length := by
                rw [whole]
                simp only [List.length_append, List.length_cons]
                omega
              have further := fun mode =>
                inductionHypothesis behind.length shorter (front ++ (gap ++ c :: taken)) behind
                  mode rfl
              have stop : Text.width front + Text.width gap + Text.width (c :: taken) =
                  Text.width (front ++ (gap ++ c :: taken)) := by
                rw [Text.width_append, Text.width_append, Nat.add_assoc]
              have forward : Text.width front < Text.width (front ++ (gap ++ c :: taken)) := by
                have positive := Lexeme.width_pos c taken
                omega
              have inside : Text.width (front ++ (gap ++ c :: taken)) ≤
                  Text.width (front ++ rest) := by
                rw [split, Text.width_append _ behind]
                exact Nat.le_add_right _ _
              rw [isPiece] at isRound
              cases found with
              | gap more =>
                  obtain rfl : more = taken.length := length
                  rw [roundOf, List.take_left, stop] at isRound
                  rw [run_gap isRound forward inside, split, further, lexFrom, isPiece]
                  simp only [List.take_left, List.drop_left, stop]
              | lexeme token more =>
                  obtain rfl : more = taken.length := length
                  rw [roundOf, List.take_left, stop] at isRound
                  rw [run_lexeme isRound forward inside, split, further, lexFrom_lexeme isPiece,
                    List.take_left, List.drop_left, stop]
                  cases lexFrom token.following (Text.width (front ++ (gap ++ c :: taken)))
                    behind <;> rfl

end AutoloadIndex.ByteLexer
