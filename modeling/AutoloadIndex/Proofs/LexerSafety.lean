import AutoloadIndex.Proofs.ByteRounds
import AutoloadIndex.Proofs.Partition

set_option autoImplicit false

/-!
The lexer is safe on every source. It goes forward and stops, it cuts texts out between characters,
and what it reports as an error is the place where something without a proper end opens.
-/

namespace AutoloadIndex.Lexeme

/-- A construct without a proper end, from its opening delimiter on. -/
inductive Unfinished : LexFault → List Char → Prop where
  | comment {body : List Char} (endless : ∀ before after, body ≠ before ++ '*' :: '/' :: after) :
      Unfinished .unterminatedComment ('/' :: '*' :: body)
  | string {quote : Quote} {place : Nat} {body : List Char}
      (endless : literalEnd (.quoted quote place) [] (place + 1) body =
        .error (.unterminatedString, place)) :
      Unfinished .unterminatedString (quote.mark :: body)
  | interpolation {place : Nat} {body : List Char}
      (endless : literalEnd (.braces 1 place) [] (place + 1) body =
        .error (.unterminatedInterpolation, place)) :
      Unfinished .unterminatedInterpolation ('{' :: body)
  | heredoc {fault : LexFault} {body : List Char} (faulty : heredocExtent body = .error fault) :
      Unfinished fault ('<' :: '<' :: '<' :: body)

theorem Unfinished.filled {fault : LexFault} {text : List Char}
    (unfinished : Unfinished fault text) : text ≠ [] := by
  cases unfinished <;> simp

theorem blockComment_endless {text : List Char} (unclosed : blockComment text = none)
    (before after : List Char) : text ≠ before ++ '*' :: '/' :: after := by
  induction text generalizing before with
  | nil => simp
  | cons c rest inductionHypothesis =>
      rw [blockComment] at unclosed
      split at unclosed
      case isTrue => cases unclosed
      case isFalse goesOn =>
          rw [Option.map_eq_none_iff] at unclosed
          intro whole
          cases before with
          | nil =>
              obtain ⟨rfl, rfl⟩ := List.cons.inj whole
              exact goesOn ⟨rfl, rfl⟩
          | cons d before =>
              exact inductionHypothesis unclosed before (List.cons.inj whole).2

/-- A fault inside of a frame is the frame's own or that of another one, opened further on. -/
theorem literalEnd_blames {whole : List Char} {top : Frame} {place blamed : Nat} {fault : LexFault}
    (failed : literalEnd top [] place (whole.drop place) = .error (fault, blamed)) :
    (fault, blamed) = top.fault ∨ Unfinished fault (whole.drop blamed) := by
  induction size : whole.length - place using Nat.strongRecOn generalizing top place with
  | ind _ inductionHypothesis =>
      subst size
      cases text : whole.drop place with
      | nil =>
          rw [text, literalEnd_nil] at failed
          exact .inl (Except.error.inj failed).symm
      | cons c rest =>
          have inside := lt_of_drop text
          have behind := drop_behind text
          rw [text, literalEnd_cons] at failed
          cases isTurn : turn top place c rest with
          | closes =>
              rw [isTurn] at failed
              cases failed
          | stays next more =>
              rw [isTurn] at failed
              simp only [← behind] at failed
              rw [← (turn_stays isTurn).1]
              exact inductionHypothesis _ (by omega) failed rfl
          | opens inner more =>
              rw [isTurn] at failed
              simp only [← behind] at failed
              rw [literalEnd_resume] at failed
              cases ended : literalEnd inner [] (place + (more + 1))
                  (whole.drop (place + (more + 1))) with
              | ok stop =>
                  have bounds := literalEnd_bounds ended
                  rw [ended] at failed
                  exact inductionHypothesis (whole.length - stop) (by omega) failed rfl
              | error blame =>
                  rw [ended] at failed
                  obtain rfl : blame = (fault, blamed) := Except.error.inj failed
                  right
                  rcases inductionHypothesis _ (by omega) ended rfl with own | further
                  · have opening : whole.drop (place + more) = (c :: rest).drop more := by
                      rw [← List.drop_drop, text]
                    rw [behind] at ended
                    rcases turn_opens isTurn with ⟨quote, rfl, mark⟩ | ⟨rfl, mark⟩
                    · obtain ⟨rfl, rfl⟩ := Prod.mk.inj own
                      rw [opening, mark]
                      exact .string ended
                    · obtain ⟨rfl, rfl⟩ := Prod.mk.inj own
                      rw [opening, mark]
                      exact .interpolation ended
                  · exact further

theorem codePiece_blames {c : Char} {rest : List Char} {fault : LexFault} {blamed : Nat}
    (failed : codePiece c rest = .error (fault, blamed)) :
    Unfinished fault ((c :: rest).drop blamed) := by
  have reads := codePiece_reads c rest
  rw [failed] at reads
  cases reads with
  | openComment slash star unclosed =>
      subst slash
      obtain ⟨body, rfl⟩ := List.head?_eq_some_iff.mp star
      exact .comment (blockComment_endless unclosed)
  | @openQuoted quote _ mark unclosed =>
      subst mark
      unfold quotedExtent at unclosed
      cases ended : literalEnd (.quoted quote 0) [] 1 rest with
      | ok stop =>
          rw [ended] at unclosed
          cases unclosed
      | error blame =>
          rw [ended] at unclosed
          obtain rfl : blame = (fault, blamed) := Except.error.inj unclosed
          rcases @literalEnd_blames (quote.mark :: rest) _ 1 _ _ ended with own | further
          · obtain ⟨rfl, rfl⟩ := Prod.mk.inj own
            exact .string ended
          · exact further
  | openHeredoc mark marks unclosed =>
      subst mark
      obtain ⟨body, rfl⟩ := exists_behind_two marks
      exact .heredoc unclosed

/-- The error stands at the opening delimiter of something unfinished in a text that starts at an
offset. -/
def Blames (offset : Nat) (text : List Char) (error : LexError) : Prop :=
  ∃ front rest, text = front ++ rest ∧ error.offset = offset + Text.width front ∧
    Unfinished error.fault rest

theorem Blames.behind {offset : Nat} {text : List Char} {error : LexError} (passed : List Char)
    (blames : Blames (offset + Text.width passed) text error) :
    Blames offset (passed ++ text) error := by
  obtain ⟨front, rest, rfl, isOffset, unfinished⟩ := blames
  refine ⟨passed ++ front, rest, (List.append_assoc _ _ _).symm, ?_, unfinished⟩
  rw [isOffset, Text.width_append, Nat.add_assoc]

theorem lexFrom_blames {mode : Mode} {offset : Nat} {text : List Char} {error : LexError}
    (failed : lexFrom mode offset text = .error error) : Blames offset text error := by
  have split : ∀ (c : Char) rest more, c :: rest = (c :: rest.take more) ++ rest.drop more := by
    intro c rest more
    rw [List.cons_append, List.take_append_drop]
  fun_induction lexFrom mode offset text with
  | case1 mode offset => cases failed
  | case2 mode offset c rest fault place isPiece =>
      cases failed
      cases mode with
      | html => cases isPiece
      | code =>
          exact ⟨(c :: rest).take place, (c :: rest).drop place, (List.take_append_drop _ _).symm,
            rfl, codePiece_blames isPiece⟩
  | case3 mode offset c rest more isPiece inductionHypothesis =>
      rw [split c rest more]
      exact (inductionHypothesis failed).behind _
  | case4 mode offset c rest token more isPiece stop found later => cases failed
  | case5 mode offset c rest token more isPiece stop fault failedLater inductionHypothesis =>
      cases failed
      rw [split c rest more]
      exact (inductionHypothesis failedLater).behind _

/-- What comes of a source. Lexemes lie inside of it and between characters; an error stands inside
of it, between characters too, and something unfinished opens there. -/
inductive Sound (source : List Char) : Except LexError (List Lexeme) → Prop where
  | lexemes {lexemes : List Lexeme}
      (filled : ∀ lexeme ∈ lexemes, lexeme.start < lexeme.stop)
      (inside : ∀ lexeme ∈ lexemes, lexeme.stop ≤ Text.width source)
      (boundaries : ∀ lexeme ∈ lexemes,
        Text.IsBoundary source lexeme.start ∧ Text.IsBoundary source lexeme.stop) :
      Sound source (.ok lexemes)
  | fault {error : LexError} (inside : error.offset < Text.width source)
      (boundary : Text.IsBoundary source error.offset) (blames : Blames 0 source error) :
      Sound source (.error error)

theorem sound_lex (mode : Mode) (source : List Char) : Sound source (lex mode source) := by
  cases lexed : lex mode source with
  | ok lexemes =>
      have lexes : Lexes mode 0 source lexemes := lexes_of_lexFrom lexed
      refine .lexemes (fun lexeme membership => (lexes.bounds lexeme membership).2) ?_ ?_
      · intro lexeme membership
        obtain ⟨front, middle, back, rfl, -, start, stop⟩ := lexes.boundaries lexeme membership
        simp only [Text.width_append]
        omega
      · intro lexeme membership
        obtain ⟨front, middle, back, rfl, -, start, stop⟩ := lexes.boundaries lexeme membership
        rw [Nat.zero_add] at start
        refine ⟨⟨front, middle ++ back, List.append_assoc _ _ _, start.symm⟩,
          ⟨front ++ middle, back, rfl, ?_⟩⟩
        rw [stop, start, Text.width_append]
  | error error =>
      obtain ⟨front, rest, whole, isOffset, unfinished⟩ := lexFrom_blames lexed
      rw [Nat.zero_add] at isOffset
      obtain ⟨c, more, isRest⟩ := List.exists_cons_of_ne_nil unfinished.filled
      refine .fault ?_ ⟨front, rest, whole, isOffset.symm⟩ (lexFrom_blames lexed)
      have positive := width_pos c more
      rw [isOffset, whole, isRest, Text.width_append]
      omega

/-- The lexer comes to an end on every source and never fails for a reason of its own: read byte by
byte, without anything that keeps the position in place, the source leads to the same lexemes or to
the same error, and both are sound. -/
theorem lex_safe (mode : Mode) (source : List Char) :
    ByteLexer.run source mode 0 = (lex mode source).mapError .fault ∧
      Sound source (lex mode source) :=
  ⟨ByteLexer.run_eq [] source mode, sound_lex mode source⟩

/-- A backslash in front of a character of two bytes, and one at the very end, which leads beyond
the source before the string inside the interpolation is found to have no end. -/
example : ByteLexer.run "'\\é'\"\x7b$a['\\".toList .code 0 =
    .error (.fault ⟨.unterminatedString, 10⟩) := by cbv

end AutoloadIndex.Lexeme
