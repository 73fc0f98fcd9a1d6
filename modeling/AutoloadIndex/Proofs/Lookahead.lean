import AutoloadIndex.Proofs.Relexing

set_option autoImplicit false

/-!
How far the lexer looks ahead. A piece is decided by its own characters and by at most five more, so
the beginning of a text is read in the same way whatever stands further behind it. Runs of the lexer
over such a beginning are derivations; they come to a place between two pieces.
-/

namespace AutoloadIndex.Lexeme

theorem take_of_take {cs ds : List Char} {n m : Nat} (shorter : n ≤ m)
    (same : cs.take m = ds.take m) : cs.take n = ds.take n := by
  rw [← Nat.min_eq_left shorter, ← List.take_take, same, List.take_take]

/-- Texts that start with the same characters, as far as the lexer looks behind a piece. -/
def Alike (text other : List Char) : Prop := text.take 5 = other.take 5

namespace Alike

variable {text other : List Char}

theorem take (alike : Alike text other) {n : Nat} (near : n ≤ 5) : text.take n = other.take n :=
  take_of_take near alike

theorem append (front : List Char) (alike : Alike text other) :
    Alike (front ++ text) (front ++ other) := by
  unfold Alike
  rw [List.take_append, List.take_append, alike.take (Nat.sub_le 5 _)]

theorem head? (alike : Alike text other) : text.head? = other.head? := by
  have first : ∀ cs : List Char, (cs.take 1).head? = cs.head? := by
    intro cs
    cases cs <;> rfl
  rw [← first text, alike.take (by decide), first other]

theorem endsOrStarts (alike : Alike text other) (p : Char → Bool) :
    Lexeme.endsOrStarts p text = Lexeme.endsOrStarts p other := by
  unfold Lexeme.endsOrStarts
  rw [alike.head?]

end Alike

section Piece

variable {front text other : List Char} (alike : Alike text other)

include alike

theorem lineComment_alike (found : lineComment (front ++ text) = front.length) :
    lineComment (front ++ other) = front.length := by
  refine lineComment_local ?_ ?_ ?_ ?_ found
  · rintro rfl
    exact List.head?_eq_none_iff.mp alike.head?.symm
  · exact alike.head?.trans
  · exact alike.head?.symm.trans
  · exact (alike.take (by decide)).symm.trans

theorem codePiece_alike {c : Char} {found : Piece} (read : codePiece c (front ++ text) = .ok found)
    (length : found.more = front.length) : codePiece c (front ++ other) = .ok found := by
  have whole := alike.append front
  have head : (front ++ other).head? = (front ++ text).head? := whole.head?.symm
  have two : (front ++ other).take 2 = (front ++ text).take 2 := (whole.take (by decide)).symm
  have stops : ∀ p : Char → Bool, text.head?.any p = false → other.head?.any p = false := by
    intro p
    rw [alike.head?]
    exact id
  have reads := codePiece_reads c (front ++ text)
  rw [read] at reads
  apply CodePiece.eq
  cases reads with
  | space space => exact .space space
  | closeTag mark next => exact .closeTag mark (head.trans next)
  | nullsafe mark next => exact .nullsafe mark (two.trans next)
  | arrow mark next => exact .arrow mark (head.trans next)
  | doubleColon mark next => exact .doubleColon mark (head.trans next)
  | attributes mark next => exact .attributes mark (head.trans next)
  | lineComment opens =>
      have extent : lineComment (front ++ text) = lineComment (front ++ other) :=
        length.trans (lineComment_alike alike length).symm
      rw [← head] at opens
      rw [extent]
      exact .lineComment opens
  | @blockComment more mark next closed =>
      cases front with
      | nil => simp [Piece.more] at length
      | cons d front =>
          obtain rfl : more = front.length := by simpa [Piece.more] using length
          exact .blockComment mark next (blockComment_local other closed)
  | @quoted quote more mark extent =>
      obtain rfl : more = front.length := length
      have quoted := CodePiece.quoted mark (quotedExtent_local other extent)
      rwa [List.take_left] at quoted ⊢
  | @heredoc more mark marks extent =>
      rcases front with - | ⟨d, - | ⟨e, front⟩⟩
      · simp [Piece.more] at length
      · simp [Piece.more] at length
      obtain rfl : more = front.length := by simpa [Piece.more] using length
      exact .heredoc mark marks (heredocExtent_local (alike.endsOrStarts _).symm.trans extent)
  | variableName mark starts =>
      obtain ⟨-, run⟩ := takeWhile_local (stops _) length
      have variableName := @CodePiece.variableName c (front ++ other) mark
        (by rwa [startsVariable, head])
      rwa [run, ← length] at variableName
  | number digit =>
      obtain ⟨-, run⟩ := takeWhile_local (stops _) length
      have number := @CodePiece.number c (front ++ other) digit
      rwa [run, ← length] at number
  | name named =>
      obtain ⟨same, run⟩ := takeWhile_local (stops _) length
      rw [same]
      have name := @CodePiece.name c (front ++ other) named
      rwa [run] at name
  | mark alone =>
      have sameStart : startsVariable (front ++ other) = startsVariable (front ++ text) := by
        rw [startsVariable, startsVariable, head]
      exact .mark {
        alone with
        notClosing := head ▸ alone.notClosing
        notNullsafe := two ▸ alone.notNullsafe
        notArrow := head ▸ alone.notArrow
        notColons := head ▸ alone.notColons
        notLine := head ▸ alone.notLine
        notBlock := head ▸ alone.notBlock
        notHeredoc := two ▸ alone.notHeredoc
        notVariable := sameStart ▸ alone.notVariable }

omit alike in
theorem openTag?_alike (alike : Alike text other) : openTag? text = openTag? other := by
  cases text with
  | nil =>
      obtain rfl : other = [] := List.head?_eq_none_iff.mp alike.head?.symm
      rfl
  | cons mark rest =>
      obtain ⟨more, rfl⟩ := List.head?_eq_some_iff.mp alike.head?.symm
      have four : rest.take 4 = more.take 4 := List.cons.inj alike |>.2
      have behind : ∀ n < 4, (rest.drop n).head? = (more.drop n).head? := by
        intro n short
        rw [List.head?_drop, List.head?_drop, ← List.getElem?_take_of_lt short, four,
          List.getElem?_take_of_lt short]
      have starts : ∀ word : List Char, word.length ≤ 4 →
          startsWithIgnoringCase word rest = startsWithIgnoringCase word more := by
        intro word short
        unfold startsWithIgnoringCase
        rw [take_of_take short four]
      have ends : ∀ p : Char → Bool, ∀ n < 4,
          endsOrStarts p (rest.drop n) = endsOrStarts p (more.drop n) := by
        intro p n short
        unfold endsOrStarts
        rw [behind n short]
      by_cases question : mark = '?'
      · subst question
        have head : rest.head? = more.head? := behind 0 (by decide)
        have stop : endsOrStarts isSpace rest = endsOrStarts isSpace more := ends _ 0 (by decide)
        simp only [openTag?, starts _ (show ['p', 'h', 'p'].length ≤ 4 by decide),
          starts _ (show ['h', 'h'].length ≤ 4 by decide), ends _ 3 (by decide),
          ends _ 2 (by decide), head, stop]
      · simp [openTag?, question]

theorem piece_alike {mode : Mode} {c : Char} {found : Piece}
    (read : piece mode c (front ++ text) = .ok found) (length : found.more = front.length) :
    piece mode c (front ++ other) = .ok found := by
  cases mode with
  | code => exact codePiece_alike alike read length
  | html =>
      have same : htmlPiece c (front ++ other) = htmlPiece c (front ++ text) := by
        unfold htmlPiece
        rw [openTag?_alike (alike.append front)]
      exact (congrArg Except.ok same).trans read

end Piece

/-- A run of the lexer over the beginning of a text, in front of what is behind it: the lexemes
found, and the mode in which the lexer comes to the place behind them. -/
inductive Reaches (behind : List Char) : Mode → Nat → List Char → List Lexeme → Mode → Prop where
  | here {mode : Mode} {offset : Nat} : Reaches behind mode offset [] [] mode
  | gap {mode last : Mode} {offset : Nat} {c : Char} {front text : List Char}
      {lexemes : List Lexeme}
      (read : piece mode c (front ++ (text ++ behind)) = .ok (.gap front.length))
      (later : Reaches behind mode (offset + Text.width (c :: front)) text lexemes last) :
      Reaches behind mode offset (c :: (front ++ text)) lexemes last
  | lexeme {mode last : Mode} {offset : Nat} {c : Char} {front text : List Char} {token : Token}
      {lexemes : List Lexeme}
      (read : piece mode c (front ++ (text ++ behind)) = .ok (.lexeme token front.length))
      (later : Reaches behind token.following (offset + Text.width (c :: front)) text lexemes last) :
      Reaches behind mode offset (c :: (front ++ text))
        (⟨token, offset, offset + Text.width (c :: front)⟩ :: lexemes) last

namespace Reaches

variable {behind other : List Char} {mode last : Mode} {offset : Nat} {text : List Char}
  {lexemes : List Lexeme}

/-- Behind a run the lexer goes on as if the text began there. -/
theorem lexFrom (reaches : Reaches behind mode offset text lexemes last) :
    Lexeme.lexFrom mode offset (text ++ behind) =
      (Lexeme.lexFrom last (offset + Text.width text) behind).map (lexemes ++ ·) := by
  induction reaches with
  | @here mode offset =>
      rw [List.nil_append, Text.width_nil, Nat.add_zero]
      cases Lexeme.lexFrom mode offset behind <;> rfl
  | @gap mode last offset c front text lexemes read later inductionHypothesis =>
      rw [List.cons_append, List.append_assoc, Lexeme.lexFrom, read]
      simp only [List.take_left, List.drop_left]
      rw [inductionHypothesis, ← List.cons_append, Text.width_append, Nat.add_assoc]
  | @lexeme mode last offset c front text token lexemes read later inductionHypothesis =>
      rw [List.cons_append, List.append_assoc, Lexeme.lexFrom, read]
      simp only [List.take_left, List.drop_left]
      rw [inductionHypothesis, ← List.cons_append, Text.width_append, Nat.add_assoc]
      cases Lexeme.lexFrom last _ behind <;> rfl

theorem lex (reaches : Reaches [] mode 0 text lexemes last) :
    Lexeme.lex mode text = .ok lexemes := by
  have lexed := reaches.lexFrom
  rw [List.append_nil, Lexeme.lexFrom, Except.map, List.append_nil] at lexed
  exact lexed

theorem append {more : List Char} {others : List Lexeme} {final : Mode}
    (reaches : Reaches (more ++ behind) mode offset text lexemes last)
    (next : Reaches behind last (offset + Text.width text) more others final) :
    Reaches behind mode offset (text ++ more) (lexemes ++ others) final := by
  induction reaches with
  | here => exact next
  | gap read later inductionHypothesis =>
      rw [← List.cons_append, Text.width_append, ← Nat.add_assoc] at next
      rw [List.cons_append, List.append_assoc]
      exact .gap (by rwa [List.append_assoc]) (inductionHypothesis next)
  | lexeme read later inductionHypothesis =>
      rw [← List.cons_append, Text.width_append, ← Nat.add_assoc] at next
      rw [List.cons_append, List.append_assoc]
      exact .lexeme (by rwa [List.append_assoc]) (inductionHypothesis next)

/-- A run does not depend on the text behind it, as far as the lexer does not look ahead. -/
theorem alike (reaches : Reaches behind mode offset text lexemes last)
    (alike : Alike behind other) : Reaches other mode offset text lexemes last := by
  induction reaches with
  | here => exact .here
  | gap read later inductionHypothesis =>
      exact .gap (piece_alike (alike.append _) read rfl) inductionHypothesis
  | lexeme read later inductionHypothesis =>
      exact .lexeme (piece_alike (alike.append _) read rfl) inductionHypothesis

end Reaches

theorem split_behind {front behind piece text : List Char} {c : Char} {offset start : Nat}
    (whole : c :: (piece ++ text) = front ++ behind) (place : start = offset + Text.width front)
    (further : offset + Text.width (c :: piece) ≤ start) :
    ∃ middle, front = c :: (piece ++ middle) ∧ text = middle ++ behind := by
  rcases List.append_eq_append_iff.mp (show c :: piece ++ text = front ++ behind from whole) with
    ⟨middle, isFront, isText⟩ | ⟨middle, isPiece, isBehind⟩
  · exact ⟨middle, isFront, isText⟩
  · cases middle with
    | nil => exact ⟨[], by simpa using isPiece.symm, by simpa using isBehind.symm⟩
    | cons d middle =>
        have positive := width_pos d middle
        rw [isPiece, Text.width_append] at further
        omega

/-- If a lexeme starts at a place, the lexer comes to that place. -/
theorem reaches_of_lexes {mode : Mode} {offset : Nat} {text front behind : List Char}
    {lexemes found rest : List Lexeme} {first : Lexeme} (lexes : Lexes mode offset text lexemes)
    (whole : text = front ++ behind) (split : lexemes = found ++ first :: rest)
    (place : first.start = offset + Text.width front) :
    ∃ last, Reaches behind mode offset front found last ∧
      Lexes last (offset + Text.width front) behind (first :: rest) := by
  induction lexes generalizing front found with
  | done => simp at split
  | @gap mode offset c piece text lexemes read later inductionHypothesis =>
      have bound := (later.bounds first (by simp [split])).1
      obtain ⟨middle, rfl, rfl⟩ := split_behind whole place bound
      have inner : first.start = offset + Text.width (c :: piece) + Text.width middle := by
        rw [place, ← List.cons_append, Text.width_append, Nat.add_assoc]
      obtain ⟨last, reaches, lexes⟩ := inductionHypothesis rfl split inner
      refine ⟨last, .gap read reaches, ?_⟩
      rw [← place, inner]
      exact lexes
  | @lexeme mode offset c piece text token lexemes read later inductionHypothesis =>
      cases found with
      | nil =>
          obtain ⟨rfl, rfl⟩ := List.cons.inj split
          have empty : front = [] := by
            cases front with
            | nil => rfl
            | cons d front =>
                have positive := width_pos d front
                simp only at place
                omega
          subst empty
          obtain rfl : c :: (piece ++ text) = behind := whole
          exact ⟨mode, .here, .lexeme read later⟩
      | cons head found =>
          obtain ⟨rfl, rfl⟩ := List.cons.inj split
          have bound := (later.bounds first (by simp)).1
          obtain ⟨middle, rfl, rfl⟩ := split_behind whole place bound
          have inner : first.start = offset + Text.width (c :: piece) + Text.width middle := by
            rw [place, ← List.cons_append, Text.width_append, Nat.add_assoc]
          obtain ⟨last, reaches, lexes⟩ := inductionHypothesis rfl rfl inner
          refine ⟨last, .lexeme read reaches, ?_⟩
          rw [← place, inner]
          exact lexes

end AutoloadIndex.Lexeme
