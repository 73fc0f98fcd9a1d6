import AutoloadIndex.FactScan
import AutoloadIndex.Proofs.ElementLowering
import AutoloadIndex.Proofs.LoweredStatements

set_option autoImplicit false

/-!
Lowering keeps strings. Blanking takes out whole lexemes, so a string that is not inside a blanked
range is still there afterwards. Open tags and element headers are replaced on the raw text before
that, which keeps the strings only if nothing is found to replace in them.
-/

namespace AutoloadIndex.Dialect

open Lexeme
open FactScan (lexFile)

def literals (lexemes : List Lexeme) : List (List Char) := strings (lexemes.map Lexeme.token)

/-- A file in which the replacements on the raw text do not reach a string: each tag and each
element header stands where the lexer reads it as such, or in a comment, and no string has a tag in
it. -/
structure ReplacedApart (path : Path) (source : List Char) (lexemes : List Lexeme) : Prop where
  tags : keepsTags .html (withHeader path source) = true
  elements : keepsElements .html none (lowerTags (withHeader path source)) = true
  texts : ∀ text ∈ literals lexemes, lowerTags text = text

theorem tokens_codeHeader (source : List Char) :
    tokens .html (codeHeader ++ source) = prepend [.openTag] (tokens .code source) := by
  have tag : piece .html '<' ('?' :: 'p' :: 'h' :: 'p' :: ' ' :: source) =
      .ok (.lexeme .openTag 4) := rfl
  have space : piece .code ' ' source = .ok (.gap 0) := rfl
  have behindTag : tokens .code (' ' :: source) = tokens .code source := by
    rw [tokens_cons, space]
    exact prepend_nil _
  rw [← behindTag]
  change tokens .html ('<' :: '?' :: 'p' :: 'h' :: 'p' :: ' ' :: source) = _
  rw [tokens_cons, tag]
  rfl

theorem tokens_withHeader {path : Path} {source : List Char} {lexemes : List Lexeme}
    (lexed : lexFile path source = .ok lexemes) :
    ∃ found, tokens .html (withHeader path source) = .ok found ∧
      strings found = literals lexemes := by
  unfold lexFile at lexed
  unfold withHeader
  cases code : startsInCode path source with
  | true =>
      rw [code, if_pos rfl] at lexed
      refine ⟨.openTag :: lexemes.map Lexeme.token, ?_, rfl⟩
      rw [if_pos rfl, tokens_codeHeader, tokens, lexed]
      rfl
  | false =>
      rw [code, if_neg Bool.false_ne_true] at lexed
      refine ⟨lexemes.map Lexeme.token, ?_, rfl⟩
      rw [if_neg Bool.false_ne_true, tokens, lexed]

theorem strings_lowerLiteral (found : List Token) :
    strings (found.map lowerLiteral) = (strings found).map lowerTags := by
  induction found with
  | nil => rfl
  | cons token found inductionHypothesis =>
      cases token <;> simpa [strings, lowerLiteral] using inductionHypothesis

/-- The prepared source has the strings of the file. -/
theorem lex_prepared {path : Path} {source : List Char} {lexemes : List Lexeme}
    (lexed : lexFile path source = .ok lexemes) (apart : ReplacedApart path source lexemes) :
    ∃ found, lex .html (prepared path source) = .ok found ∧
      literals found = literals lexemes := by
  obtain ⟨headed, isHeaded, sameHeaded⟩ := tokens_withHeader lexed
  have tagged : tokens .html (lowerTags (withHeader path source)) =
      .ok (headed.map lowerLiteral) := by
    rw [tokens_lowerTags apart.tags, isHeaded]
    rfl
  obtain ⟨others, relexed, sameOthers⟩ := tokens_lowerHeaders apart.elements tagged
  have texts : strings (headed.map lowerLiteral) = literals lexemes := by
    rw [strings_lowerLiteral, sameHeaded]
    exact (List.map_congr_left apart.texts).trans (List.map_id' _)
  rw [← lowerElements_eq] at relexed
  unfold tokens at relexed
  unfold prepared
  cases isFound : lex .html (lowerElements (lowerTags (withHeader path source))) with
  | error e => simp [isFound] at relexed
  | ok found =>
      rw [isFound] at relexed
      refine ⟨found, rfl, ?_⟩
      rw [literals, Except.ok.inj relexed, sameOthers, texts]

/-- If the replacements do not reach a string, the strings of the result are those of the file, in
their order and with their texts, that do not lie inside a blanked range. -/
theorem lower_keepsLiterals {path : Path} {source : List Char} {lexemes : List Lexeme}
    (lexed : lexFile path source = .ok lexemes) (apart : ReplacedApart path source lexemes) :
    ∃ found, lex .html (prepared path source) = .ok found ∧ literals found = literals lexemes ∧
      ((∀ span ∈ blankedSpans found, ∀ lexeme ∈ found, lexeme.start = span.start →
          lexeme.token ≠ .closeTag) →
        lex .html (lower path source).source = .ok (remaining (blankedSpans found) found)) := by
  obtain ⟨found, relexed, same⟩ := lex_prepared lexed apart
  exact ⟨found, relexed, same, lex_blankedSpans relexed⟩

def elementAndString : List Char := "<?hh class :a<T>;'b'".toList

def elementAndStringLexemes : List Lexeme := [
  ⟨.openTag, 0, 4⟩, ⟨.ident "class".toList, 5, 10⟩, ⟨.punct ':', 11, 12⟩, ⟨.ident ['a'], 12, 13⟩,
  ⟨.punct '<', 13, 14⟩, ⟨.ident ['T'], 14, 15⟩, ⟨.punct '>', 15, 16⟩, ⟨.punct ';', 16, 17⟩,
  ⟨.str "'b'".toList, 17, 20⟩]

def preparedLexemes : List Lexeme := [
  ⟨.openTag, 0, 5⟩, ⟨.ident "class".toList, 6, 11⟩, ⟨.ident "xhp_a".toList, 12, 17⟩,
  ⟨.punct '<', 17, 18⟩, ⟨.ident ['T'], 18, 19⟩, ⟨.punct '>', 19, 20⟩, ⟨.punct ';', 20, 21⟩,
  ⟨.str "'b'".toList, 21, 24⟩]

theorem keepsLiterals_elementAndString :
    lexFile ⟨"t.php"⟩ elementAndString = .ok elementAndStringLexemes ∧
      lex .html (lower ⟨"t.php"⟩ elementAndString).source =
        .ok [⟨.openTag, 0, 5⟩, ⟨.ident "class".toList, 6, 11⟩, ⟨.ident "xhp_a".toList, 12, 17⟩,
          ⟨.punct ';', 20, 21⟩, ⟨.str "'b'".toList, 21, 24⟩] := by
  have lexed : lexFile ⟨"t.php"⟩ elementAndString = .ok elementAndStringLexemes := by
    decide +kernel
  have apart : ReplacedApart ⟨"t.php"⟩ elementAndString elementAndStringLexemes :=
    ⟨by decide +kernel, by decide +kernel, by decide +kernel⟩
  have isFound : lex .html (prepared ⟨"t.php"⟩ elementAndString) = .ok preparedLexemes := by
    decide +kernel
  have spans : blankedSpans preparedLexemes = [⟨17, 20⟩] := by
    have removed : (removal {} none 0 preparedLexemes).blanks = [⟨17, 20⟩] := by decide +kernel
    rw [blankedSpans, removed, List.mergeSort_singleton]
    rfl
  obtain ⟨found, relexed, -, left⟩ := lower_keepsLiterals lexed apart
  obtain rfl : found = preparedLexemes := Except.ok.inj (relexed.symm.trans isFound)
  rw [spans] at left
  exact ⟨lexed, left (by decide +kernel)⟩

/-- A tag in a string is rewritten as well. -/
theorem literals_tagInString :
    let source := "<?php '<?hh'".toList
    (lexFile ⟨"t.php"⟩ source).map literals = .ok ["'<?hh'".toList] ∧
      (lex .html (lower ⟨"t.php"⟩ source).source).map literals = .ok ["'<?php'".toList] := by
  decide +kernel

end AutoloadIndex.Dialect
