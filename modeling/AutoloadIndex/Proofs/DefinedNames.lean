import AutoloadIndex.Proofs.Decoding
import AutoloadIndex.Proofs.GrammarScan
import AutoloadIndex.Proofs.LiteralValues

set_option autoImplicit false

/-!
Names that calls of `define` give to constants. A text can be written as a literal in either kind of
quotes, with a backslash in front of what has a meaning there. The lexer ends such a literal where
it was ended, and its value is the text again, so every text is the name of a constant, up to the
separators in front of it.
-/

namespace AutoloadIndex

namespace Lexeme

open Literal (isEscaped)

def Quote.escapes : Quote → List Char
  | single => ['\\', '\'']
  | double => ['\\', '"', '$']
  | backtick => ['\\', '\x60', '$']

namespace Quote

def writeChar (quote : Quote) (c : Char) : List Char := if c ∈ quote.escapes then ['\\', c] else [c]

def writeBody (quote : Quote) (text : List Char) : List Char := text.flatMap quote.writeChar

def write (quote : Quote) (text : List Char) : List Char :=
  quote.mark :: (quote.writeBody text ++ [quote.mark])

theorem writeBody_cons (quote : Quote) (c : Char) (rest : List Char) :
    quote.writeBody (c :: rest) = quote.writeChar c ++ quote.writeBody rest := rfl

theorem mem_escapes {quote : Quote} {c : Char} :
    c ∈ quote.escapes ↔ c = '\\' ∨ c = quote.mark ∨ quote.interpolates ∧ c = '$' := by
  cases quote <;> simp [escapes, mark, interpolates]

theorem isEscaped_of_mem {quote : Quote} (isQuote : Literal.isQuote quote.mark = true) {c : Char}
    (escaped : c ∈ quote.escapes) : isEscaped quote.mark c = true := by
  cases quote with
  | single => simpa [isEscaped, mark, escapes] using escaped
  | double => simpa [isEscaped, mark, escapes, or_assoc] using escaped
  | backtick => cases isQuote

/-- Where there are insertions a text is not written with a bare dollar sign in front. -/
theorem head?_writeBody {quote : Quote} (interpolates : quote.interpolates = true)
    (text behind : List Char) : (quote.writeBody text ++ quote.mark :: behind).head? ≠ some '$' := by
  cases text with
  | nil => cases quote <;> simp [writeBody, mark]
  | cons c rest =>
      rw [writeBody_cons, writeChar]
      split
      case isTrue => simp
      case isFalse plain =>
          rintro found
          have isDollar : c = '$' := Option.some.inj found
          exact plain (mem_escapes.mpr (.inr (.inr ⟨interpolates, isDollar⟩)))

section Extent

variable {quote : Quote} {opened place : Nat} {below : List Frame} {c : Char} {rest : List Char}

theorem literalEnd_hidden (d : Char) :
    literalEnd (.quoted quote opened) below place ('\\' :: d :: rest) =
      literalEnd (.quoted quote opened) below (place + 2) rest := by
  rw [literalEnd_cons]
  rfl

theorem literalEnd_plain (plain : c ∉ quote.escapes)
    (closed : quote.interpolates = true → rest.head? ≠ some '$') :
    literalEnd (.quoted quote opened) below place (c :: rest) =
      literalEnd (.quoted quote opened) below (place + 1) rest := by
  rw [mem_escapes, not_or, not_or] at plain
  have stays : turn (.quoted quote opened) place c rest = .stays (.quoted quote opened) 0 := by
    have notBraced : ¬ (quote.interpolates ∧ c = '{' ∧ rest.head? = some '$') :=
      fun braced => closed braced.1 braced.2.2
    have notDollar : ¬ (quote.interpolates ∧ c = '$' ∧ rest.head? = some '{') :=
      fun dollar => plain.2.2 ⟨dollar.1, dollar.2.1⟩
    simp only [turn, if_neg plain.1, if_neg plain.2.1, if_neg notBraced, if_neg notDollar]
  rw [literalEnd_cons, stays]
  rfl

theorem literalEnd_writeBody (text behind : List Char) :
    literalEnd (.quoted quote opened) [] place (quote.writeBody text ++ quote.mark :: behind) =
      .ok (place + (quote.writeBody text).length + 1) := by
  induction text generalizing place with
  | nil =>
      have closes : turn (.quoted quote opened) place quote.mark behind = .closes := by
        cases quote <;> rfl
      rw [writeBody, List.flatMap_nil, List.nil_append, literalEnd_cons, closes]
      rfl
  | cons c rest inductionHypothesis =>
      rw [writeBody_cons, List.append_assoc, List.length_append, writeChar]
      split
      case isTrue =>
          rw [List.cons_append, List.cons_append, List.nil_append, literalEnd_hidden,
            inductionHypothesis]
          simp only [List.length_cons, List.length_nil]
          exact congrArg _ (by omega)
      case isFalse plain =>
          rw [List.cons_append, List.nil_append,
            literalEnd_plain plain (fun inserts => head?_writeBody inserts rest behind),
            inductionHypothesis]
          simp only [List.length_cons, List.length_nil]
          exact congrArg _ (by omega)

theorem quotedExtent_writeBody (quote : Quote) (text behind : List Char) :
    quotedExtent quote (quote.writeBody text ++ quote.mark :: behind) =
      .ok ((quote.writeBody text).length + 1) := by
  rw [quotedExtent, literalEnd_writeBody, Except.map, Except.ok.injEq]
  omega

end Extent

theorem value_write {quote : Quote} (isQuote : Literal.isQuote quote.mark = true)
    (text : List Char) : Literal.value (quote.write text) = some text := by
  rw [write, Literal.value_quoted isQuote]
  induction text with
  | nil => rfl
  | cons c rest inductionHypothesis =>
      rw [writeBody_cons, writeChar]
      split
      case isTrue escaped =>
          rw [List.cons_append, List.cons_append, List.nil_append,
            Literal.body_escape (isEscaped_of_mem isQuote escaped), inductionHypothesis]
          rfl
      case isFalse plain =>
          rw [mem_escapes, not_or, not_or] at plain
          have notInserted : ¬ (c = '$' ∧ quote.mark = '"' ∧
              (quote.writeBody rest).head?.any Literal.startsInterpolation = true) := by
            rintro ⟨isDollar, isDouble, -⟩
            have interpolates : quote.interpolates = true := by
              cases quote with
              | single => cases isDouble
              | double => rfl
              | backtick => rfl
            exact plain.2.2 ⟨interpolates, isDollar⟩
          rw [List.cons_append, List.nil_append, Literal.body_plain plain.1 notInserted,
            inductionHypothesis]
          rfl

end Quote

def defining (literal : List Char) : List Char :=
  "<?php define(".toList ++ (literal ++ ", 1);".toList)

def definingLexemes (literal : List Char) : List Lexeme :=
  let stop := 13 + Text.width literal
  [⟨.openTag, 0, 5⟩, ⟨.ident "define".toList, 6, 12⟩, ⟨.punct '(', 12, 13⟩, ⟨.str literal, 13, stop⟩,
    ⟨.punct ',', stop, stop + 1⟩, ⟨.number, stop + 2, stop + 3⟩, ⟨.punct ')', stop + 3, stop + 4⟩,
    ⟨.punct ';', stop + 4, stop + 5⟩]

theorem piece_write {quote : Quote} (isQuote : Literal.isQuote quote.mark = true)
    (text behind : List Char) :
    piece .code quote.mark (quote.writeBody text ++ quote.mark :: behind) =
      .ok (.lexeme (.str (quote.write text)) ((quote.writeBody text).length + 1)) := by
  have string : piece .code quote.mark (quote.writeBody text ++ quote.mark :: behind) =
      stringPiece quote (quote.writeBody text ++ quote.mark :: behind) := by
    cases quote with
    | single => rfl
    | double => rfl
    | backtick => cases isQuote
  rw [string, stringPiece, quotedPiece, Quote.quotedExtent_writeBody, Except.map, List.append_cons,
    List.take_left' (by simp)]
  rfl

section Runs

variable (behind : List Char)

theorem reaches_defining : Reaches behind .html 0 "<?php define(".toList
    [⟨.openTag, 0, 5⟩, ⟨.ident "define".toList, 6, 12⟩, ⟨.punct '(', 12, 13⟩] .code := by
  have tag : piece .html '<' (['?', 'p', 'h', 'p'] ++ (" define(".toList ++ behind)) =
      .ok (.lexeme .openTag 4) := rfl
  have space : piece .code ' ' ([] ++ ("define(".toList ++ behind)) = .ok (.gap 0) := rfl
  have word : piece .code 'd' (['e', 'f', 'i', 'n', 'e'] ++ (['('] ++ behind)) =
      .ok (.lexeme (.ident "define".toList) 5) := rfl
  have opening : piece .code '(' ([] ++ ([] ++ behind)) = .ok (.lexeme (.punct '(') 0) := rfl
  exact .lexeme tag (.gap space (.lexeme word (.lexeme opening .here)))

theorem reaches_value (offset : Nat) : Reaches behind .code offset ", 1);".toList
    [⟨.punct ',', offset, offset + 1⟩, ⟨.number, offset + 2, offset + 3⟩,
      ⟨.punct ')', offset + 3, offset + 4⟩, ⟨.punct ';', offset + 4, offset + 5⟩] .code := by
  have comma : piece .code ',' ([] ++ (" 1);".toList ++ behind)) =
      .ok (.lexeme (.punct ',') 0) := rfl
  have space : piece .code ' ' ([] ++ ("1);".toList ++ behind)) = .ok (.gap 0) := rfl
  have number : piece .code '1' ([] ++ (");".toList ++ behind)) = .ok (.lexeme .number 0) := rfl
  have closing : piece .code ')' ([] ++ (";".toList ++ behind)) = .ok (.lexeme (.punct ')') 0) := rfl
  have semicolon : piece .code ';' ([] ++ ([] ++ behind)) = .ok (.lexeme (.punct ';') 0) := rfl
  exact .lexeme comma (.gap space (.lexeme number (.lexeme closing (.lexeme semicolon .here))))

end Runs

theorem lex_defining {quote : Quote} (isQuote : Literal.isQuote quote.mark = true)
    (text : List Char) :
    lex .html (defining (quote.write text)) = .ok (definingLexemes (quote.write text)) := by
  have string : Reaches (", 1);".toList ++ []) .code 13 (quote.write text)
      [⟨.str (quote.write text), 13, 13 + Text.width (quote.write text)⟩] .code := by
    have read : piece .code quote.mark ((quote.writeBody text ++ [quote.mark]) ++
        ([] ++ (", 1);".toList ++ []))) = .ok (.lexeme (.str (quote.write text))
          (quote.writeBody text ++ [quote.mark]).length) := by
      rw [List.append_assoc, List.length_append]
      exact piece_write isQuote text _
    have whole := @Reaches.lexeme _ _ .code 13 _ _ _ _ _ read .here
    rwa [List.append_nil (quote.writeBody text ++ [quote.mark])] at whole
  have value := reaches_value [] (13 + Text.width (quote.write text))
  exact ((reaches_defining _).append (string.append value)).lex

end Lexeme

namespace FactScan

open Lexeme

theorem scan_defining (literal : List Char) :
    scan {} (definingLexemes literal) = .ok
      ((Literal.value literal).map fun name => ⟨.constant, Name.relative (.ofList name)⟩).toList := by
  have noKeyword : ∀ token ∈ (Statement.define "define".toList literal (some [.number])).rest,
      token.name?.bind Keyword.ofWord? = none := by
    simp [Statement.rest, Token.name?]
  let program : Program := [.item ⟨.other [.openTag], by decide⟩,
    .item ⟨.define "define".toList literal (some [.number]), by decide, by decide,
      outside_of_no_keyword noKeyword _ _⟩]
  have spelled : (definingLexemes literal).map Lexeme.token = program.tokens := rfl
  rw [scan_tokens program spelled]
  simp [program, Program.symbols, inTurn, Part.symbols, Item.symbols, Statement.symbols]

theorem startsInCode_defining (path : Path) (literal : List Char) :
    Dialect.startsInCode path (defining literal) = false := by
  have opened : ['<', '?'].isPrefixOf
      ((Dialect.afterShebang (defining literal)).dropWhile Text.isBlank) = true := rfl
  rw [Dialect.startsInCode, opened]
  simp

theorem parse_write {quote : Quote} (isQuote : Literal.isQuote quote.mark = true) (path : Path)
    (text : List Char) :
    parse (Text.bytes (defining (quote.write text))) path =
      .ok [⟨⟨.constant, Name.relative (.ofList text)⟩, path⟩] := by
  have scanned := scan_defining (quote.write text)
  rw [Quote.value_write isQuote] at scanned
  refine parse_of_scan ?_ scanned
  rw [Text.decode_bytes, lexFile, startsInCode_defining]
  exact lex_defining isQuote text

/-- Every text names a constant, written in single quotes or in double quotes. -/
theorem parse_definedName (path : Path) (name : String) :
    parse (Text.bytes (defining (Quote.single.write name.toList))) path =
        .ok [⟨⟨.constant, .ofList (name.toList.dropWhile (· == '\\'))⟩, path⟩] ∧
      parse (Text.bytes (defining (Quote.double.write name.toList))) path =
        .ok [⟨⟨.constant, .ofList (name.toList.dropWhile (· == '\\'))⟩, path⟩] := by
  have relative : Name.relative (.ofList name.toList) =
      .ofList (name.toList.dropWhile (· == '\\')) := by
    rw [Name.relative, String.toList_ofList]
    rfl
  rw [← relative]
  exact ⟨parse_write rfl path name.toList, parse_write rfl path name.toList⟩

end FactScan

end AutoloadIndex
