import AutoloadIndex.Dialect.Header
import AutoloadIndex.Lexeme.Lexer
import AutoloadIndex.Lexeme.Statement

set_option autoImplicit false

/-!
Files without an open tag. The lexer does the same at every offset, so the lexemes of such a file,
read as code, are those of the file with an open tag in front of it, moved by the width of that tag
and the space behind it.
-/

namespace AutoloadIndex

namespace LexError

def moved (distance : Nat) (e : LexError) : LexError := { e with offset := e.offset + distance }

end LexError

namespace Lexeme

def moved (distance : Nat) (lexeme : Lexeme) : Lexeme :=
  { lexeme with start := lexeme.start + distance, stop := lexeme.stop + distance }

def movedAll (distance : Nat) :
    Except LexError (List Lexeme) → Except LexError (List Lexeme)
  | .ok lexemes => .ok (lexemes.map (moved distance))
  | .error e => .error (e.moved distance)

/-- Whether the lexeme at an index begins a statement, by the one in front of it. -/
def startsAt (lexemes : List Lexeme) : Nat → Bool
  | 0 => startsStatement none
  | index + 1 => startsStatement (ahead lexemes index)

theorem lexFrom_moved (mode : Mode) (offset distance : Nat) (text : List Char) :
    lexFrom mode (offset + distance) text = movedAll distance (lexFrom mode offset text) := by
  fun_induction lexFrom mode offset text with
  | case1 mode offset =>
      rw [lexFrom]
      rfl
  | case2 mode offset c rest fault place failed =>
      rw [lexFrom, failed]
      simp only [movedAll, LexError.moved, Nat.add_right_comm]
  | case3 mode offset c rest more read inductionHypothesis =>
      rw [lexFrom, read]
      rw [Nat.add_right_comm] at inductionHypothesis
      exact inductionHypothesis
  | case4 mode offset c rest token more read stop found later inductionHypothesis =>
      rw [lexFrom, read]
      simp only [stop, later, Nat.add_right_comm offset] at inductionHypothesis ⊢
      simp only [inductionHypothesis, movedAll, List.map_cons, moved, Nat.add_right_comm offset]
  | case5 mode offset c rest token more read stop fault failed inductionHypothesis =>
      rw [lexFrom, read]
      simp only [stop, failed, Nat.add_right_comm offset] at inductionHypothesis ⊢
      simp only [inductionHypothesis]
      rfl

theorem startsAt_headed {first : Lexeme} (opens : first.token = .openTag) (distance : Nat)
    (lexemes : List Lexeme) (index : Nat) :
    startsAt (first :: lexemes.map (moved distance)) (index + 1) = startsAt lexemes index := by
  cases index with
  | zero => simp [startsAt, ahead, opens, startsStatement, Token.endsStatement]
  | succ index =>
      simp only [startsAt, ahead, List.getElem?_cons_succ, List.getElem?_map, Option.map_map]
      rfl

theorem lex_header (source : List Char) :
    lex .html (Dialect.codeHeader ++ source) =
      match lexFrom .code 6 source with
      | .ok lexemes => .ok (⟨.openTag, 0, 5⟩ :: lexemes)
      | .error e => .error e := by
  have tag : piece .html '<' ('?' :: 'p' :: 'h' :: 'p' :: ' ' :: source) =
      .ok (.lexeme .openTag 4) := rfl
  have space : piece .code ' ' source = .ok (.gap 0) := rfl
  have behindTag : lexFrom .code 5 (' ' :: source) = lexFrom .code 6 source := by
    rw [lexFrom, space]
    rfl
  rw [← behindTag]
  change lexFrom .html 0 ('<' :: '?' :: 'p' :: 'h' :: 'p' :: ' ' :: source) = _
  rw [lexFrom, tag]
  rfl

/-- A file without an open tag, read as code, has the lexemes that it has behind one. -/
theorem lex_codeHeader (source : List Char) :
    match lex .code source with
    | .ok lexemes =>
        let headed := ⟨.openTag, 0, 5⟩ :: lexemes.map (moved 6)
        lex .html (Dialect.codeHeader ++ source) = .ok headed ∧
          ∀ index, startsAt headed (index + 1) = startsAt lexemes index
    | .error e => lex .html (Dialect.codeHeader ++ source) = .error (e.moved 6) := by
  have shifted : lexFrom .code 6 source = movedAll 6 (lex .code source) := by
    rw [lex, ← lexFrom_moved]
  rw [lex_header, shifted]
  cases lex .code source with
  | ok lexemes => exact ⟨rfl, startsAt_headed rfl 6 lexemes⟩
  | error e => rfl

end Lexeme

end AutoloadIndex
