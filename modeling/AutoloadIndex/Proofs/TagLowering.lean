import Mathlib.Data.List.Basic
import AutoloadIndex.Dialect.Element
import AutoloadIndex.Proofs.Headerless
import AutoloadIndex.Proofs.PieceLocality
import AutoloadIndex.Proofs.TagExtents

set_option autoImplicit false

/-!
Open tags of Hack are rewritten on the raw text, while the lexer has a rule of its own for each kind
of tag. The rewritten text has the tokens of the original, up to the texts of its strings, if every
tag that the lexer comes to is one it reads in the same way afterwards.
-/

namespace AutoloadIndex.Lexeme

def tokens (mode : Mode) (text : List Char) : Except LexFault (List Token) :=
  match lex mode text with
  | .ok lexemes => .ok (lexemes.map Lexeme.token)
  | .error e => .error e.fault

def Piece.next (mode : Mode) : Piece → Mode
  | gap _ => mode
  | lexeme token _ => token.following

def Piece.tokens : Piece → List Token
  | gap _ => []
  | lexeme token _ => [token]

def prepend (found : List Token) (outcome : Except LexFault (List Token)) :
    Except LexFault (List Token) :=
  outcome.map (found ++ ·)

@[simp] theorem prepend_nil (outcome : Except LexFault (List Token)) :
    prepend [] outcome = outcome := by
  cases outcome <;> rfl

theorem prepend_prepend (first second : List Token) (outcome : Except LexFault (List Token)) :
    prepend first (prepend second outcome) = prepend (first ++ second) outcome := by
  cases outcome <;> simp [prepend, Except.map]

theorem prepend_eq_ok {front found : List Token} {outcome : Except LexFault (List Token)}
    (isFound : prepend front outcome = .ok found) :
    ∃ behind, outcome = .ok behind ∧ found = front ++ behind := by
  cases outcome with
  | error fault => cases isFound
  | ok behind => exact ⟨behind, rfl, (Except.ok.inj isFound).symm⟩

@[simp] theorem tokens_nil (mode : Mode) : tokens mode [] = .ok [] := by
  rw [tokens, lex, lexFrom]
  rfl

theorem tokens_cons (mode : Mode) (c : Char) (rest : List Char) :
    tokens mode (c :: rest) =
      match piece mode c rest with
      | .error (fault, _) => .error fault
      | .ok found => prepend found.tokens (tokens (found.next mode) (rest.drop found.more)) := by
  have elsewhere : ∀ (mode : Mode) (distance : Nat) (text : List Char),
      lexFrom mode distance text = movedAll distance (lex mode text) := by
    intro mode distance text
    rw [lex, ← lexFrom_moved, Nat.zero_add]
  rw [tokens, lex, lexFrom]
  cases read : piece mode c rest with
  | error e => rfl
  | ok found =>
      cases found with
      | gap more =>
          simp only [elsewhere, Piece.tokens, prepend_nil, Piece.next, Piece.more, tokens]
          cases lex mode (rest.drop more) with
          | ok lexemes => simp [movedAll, moved, Function.comp_def]
          | error e => rfl
      | lexeme token more =>
          simp only [elsewhere, Piece.tokens, Piece.next, Piece.more, tokens]
          cases lex token.following (rest.drop more) with
          | ok lexemes => simp [movedAll, moved, Function.comp_def, prepend, Except.map]
          | error e => rfl

theorem tokens_skip {c : Char} {rest : List Char} (skipped : htmlPiece c rest = .gap 0) :
    tokens .html (c :: rest) = tokens .html rest := by
  rw [tokens_cons, piece, skipped]
  exact prepend_nil _

theorem htmlPiece_of_ne {c : Char} (rest : List Char) (differs : c ≠ '<') :
    htmlPiece c rest = .gap 0 := by
  rw [htmlPiece, if_neg differs]

end AutoloadIndex.Lexeme

namespace AutoloadIndex.Dialect

open Lexeme

def lowerLiteral : Token → Token
  | .str text => .str (lowerTags text)
  | token => token

theorem following_lowerLiteral (token : Token) :
    (lowerLiteral token).following = token.following := by
  cases token <;> rfl

/-- Pieces of a text and of its rewritten form at the same character: the same kind of piece, behind
which the rest of the text is rewritten by itself, or the same fault. -/
inductive SamePiece (rest : List Char) :
    Except (LexFault × Nat) Piece → Except (LexFault × Nat) Piece → Prop where
  | read {found other : Piece} (next : ∀ mode, other.next mode = found.next mode)
      (lowered : other.tokens = found.tokens.map lowerLiteral)
      (behind : (lowerTags rest).drop other.more = lowerTags (rest.drop found.more)) :
      SamePiece rest (.ok found) (.ok other)
  | faulty (fault : LexFault) (place other : Nat) :
      SamePiece rest (.error (fault, place)) (.error (fault, other))

section Pieces

variable {c : Char} {rest : List Char}

theorem SamePiece.gap {more other : Nat}
    (behind : (lowerTags rest).drop other = lowerTags (rest.drop more)) :
    SamePiece rest (.ok (.gap more)) (.ok (.gap other)) :=
  .read (fun _ => rfl) rfl behind

theorem SamePiece.lexeme (token : Token) {more other : Nat}
    (behind : (lowerTags rest).drop other = lowerTags (rest.drop more)) :
    SamePiece rest (.ok (.lexeme token more)) (.ok (.lexeme (lowerLiteral token) other)) :=
  .read (fun _ => following_lowerLiteral token) rfl behind

theorem SamePiece.plain (token : Token) {more : Nat} (same : lowerLiteral token = token)
    (plain : '<' ∉ rest.take more) :
    SamePiece rest (.ok (.lexeme token more)) (.ok (.lexeme token more)) := by
  have piece := SamePiece.lexeme token (drop_lowerTags_of_plain plain)
  rwa [same] at piece

theorem SamePiece.run (token : Token) {p : Char → Bool} (same : lowerLiteral token = token)
    (unmarked : p '<' = false) :
    SamePiece rest (.ok (.lexeme token (rest.takeWhile p).length))
      (.ok (.lexeme token (rest.takeWhile p).length)) := by
  have piece := SamePiece.lexeme token (drop_lowerTags unmarked rest)
  rwa [same] at piece

theorem lowerLiteral_quoted {quote : Quote} (mark : c = quote.mark) (text : List Char) :
    lowerLiteral (quote.token (c :: text)) = quote.token (c :: lowerTags text) := by
  have noTag : c ≠ '<' := by
    rw [mark]
    cases quote <;> decide
  cases quote with
  | backtick => rfl
  | single | double => exact congrArg Token.str (lowerTags_of_ne text noTag)

/-- A tag right behind the marks of a heredoc leaves it without a label, rewritten or not. -/
theorem heredoc_lowerTags (text : List Char) :
    (∃ fault, heredocExtent text = .error fault ∧
        heredocExtent ((lowerTags ('<' :: text)).drop 1) = .error fault) ∨
      ∃ more other, heredocExtent text = .ok more ∧
        heredocExtent ((lowerTags ('<' :: text)).drop 1) = .ok other ∧
        (lowerTags ('<' :: text)).drop (other + 1) = lowerTags (text.drop more) := by
  cases starts : startsTag ('<' :: text) with
  | true =>
      obtain ⟨rest, whole, ends⟩ := startsTag_cases starts
      obtain ⟨-, rfl⟩ := List.cons.inj whole
      rw [lowerTags_tag ends]
      exact .inl ⟨.missingLabel, rfl, rfl⟩
  | false =>
      rw [lowerTags_cons starts]
      rcases heredocExtent_lowerTags text with failed | ⟨more, other, found, lowered, cut⟩
      · exact .inl failed
      · exact .inr ⟨more, other, found, lowered, cut.parts.2⟩

theorem codePiece_lowerTags :
    SamePiece rest (codePiece c rest) (codePiece c (lowerTags rest)) := by
  have one : ∀ {d : Char}, d ≠ '<' → rest.head? = some d → '<' ∉ rest.take 1 := by
    intro d differs head
    obtain ⟨more, rfl⟩ := List.head?_eq_some_iff.mp head
    simpa using differs.symm
  have reads := codePiece_reads c rest
  generalize codePiece c rest = found at reads ⊢
  have head := head?_lowerTags rest
  have two := take_two_lowerTags rest
  have sameStart : startsVariable (lowerTags rest) = startsVariable rest := by
    rw [startsVariable, startsVariable, head]
  cases reads with
  | space space =>
      rw [(CodePiece.space space).eq]
      exact .gap rfl
  | closeTag mark next =>
      rw [(CodePiece.closeTag mark (head.trans next)).eq]
      exact .plain _ rfl (one (by decide) next)
  | nullsafe mark next =>
      rw [(CodePiece.nullsafe mark (two.trans next)).eq]
      exact .plain _ rfl (by rw [next]; decide)
  | arrow mark next =>
      rw [(CodePiece.arrow mark (head.trans next)).eq]
      exact .plain _ rfl (one (by decide) next)
  | doubleColon mark next =>
      rw [(CodePiece.doubleColon mark (head.trans next)).eq]
      exact .plain _ rfl (one (by decide) next)
  | attributes mark next =>
      rw [(CodePiece.attributes mark (head.trans next)).eq]
      exact .plain _ rfl (by simp)
  | lineComment opens =>
      rw [← head] at opens
      rw [(CodePiece.lineComment opens).eq]
      exact .gap (lineComment_lowerTags rest).parts.2
  | @blockComment more mark next closed =>
      obtain ⟨text, rfl⟩ := List.head?_eq_some_iff.mp next
      have same := blockComment_lowerTags text
      rw [show blockComment text = some more from closed] at same
      generalize isLowered : blockComment (lowerTags text) = second at same
      cases same with
      | @some _ lowered cut =>
          have later : lowerTags ('*' :: text) = '*' :: lowerTags text :=
            lowerTags_of_ne _ (by decide)
          have read : CodePiece c (lowerTags ('*' :: text)) (.ok (.gap (lowered + 1))) := by
            rw [later]
            exact .blockComment mark rfl isLowered
          rw [read.eq]
          refine .gap ?_
          rw [later, List.drop_succ_cons, List.drop_succ_cons]
          exact cut.parts.2
  | openComment mark next unclosed =>
      obtain ⟨text, rfl⟩ := List.head?_eq_some_iff.mp next
      have same := blockComment_lowerTags text
      rw [show blockComment text = none from unclosed] at same
      generalize isLowered : blockComment (lowerTags text) = second at same
      cases same with
      | none =>
          have read : CodePiece c (lowerTags ('*' :: text)) (.error (.unterminatedComment, 0)) := by
            rw [lowerTags_of_ne _ (by decide)]
            exact .openComment mark rfl isLowered
          rw [read.eq]
          exact .faulty _ 0 0
  | @quoted quote more mark extent =>
      have same := quotedExtent_lowerTags quote rest
      rw [extent] at same
      generalize isLowered : quotedExtent quote (lowerTags rest) = second at same
      cases same with
      | @found more lowered cut =>
          rw [(CodePiece.quoted mark isLowered).eq, Nat.zero_add, Nat.zero_add, cut.parts.1,
            ← lowerLiteral_quoted mark]
          exact .lexeme _ cut.parts.2
  | @openQuoted quote fault mark unclosed =>
      have same := quotedExtent_lowerTags quote rest
      rw [unclosed] at same
      generalize isLowered : quotedExtent quote (lowerTags rest) = second at same
      cases same with
      | missing fault opened opening =>
          rw [(CodePiece.openQuoted mark isLowered).eq]
          exact .faulty fault opened opening
  | @heredoc more mark marks extent =>
      obtain ⟨text, rfl⟩ := exists_behind_two marks
      have first : lowerTags ('<' :: '<' :: text) = '<' :: lowerTags ('<' :: text) :=
        lowerTags_cons rfl
      rcases heredoc_lowerTags text with ⟨fault, failed, -⟩ | ⟨_, other, found, lowered, behind⟩
      · cases failed.symm.trans extent
      cases found.symm.trans extent
      have read : CodePiece c (lowerTags ('<' :: '<' :: text))
          (.ok (.lexeme .template (other + 2))) := by
        refine .heredoc mark (two.trans marks) ?_
        rw [first, List.drop_succ_cons]
        exact lowered
      rw [read.eq]
      refine .lexeme .template ?_
      rw [first, List.drop_succ_cons, List.drop_succ_cons, List.drop_succ_cons]
      exact behind
  | @openHeredoc fault mark marks unclosed =>
      obtain ⟨text, rfl⟩ := exists_behind_two marks
      have first : lowerTags ('<' :: '<' :: text) = '<' :: lowerTags ('<' :: text) :=
        lowerTags_cons rfl
      rcases heredoc_lowerTags text with ⟨_, failed, lowered⟩ | ⟨_, _, found, -, -⟩
      · cases failed.symm.trans unclosed
        have read : CodePiece c (lowerTags ('<' :: '<' :: text)) (.error (fault, 0)) := by
          refine .openHeredoc mark (two.trans marks) ?_
          rw [first, List.drop_succ_cons]
          exact lowered
        rw [read.eq]
        exact .faulty fault 0 0
      · cases found.symm.trans unclosed
  | variableName mark starts =>
      rw [(CodePiece.variableName mark (sameStart.trans starts)).eq,
        takeWhile_lowerTags (by decide)]
      exact .run _ rfl (by decide)
  | number digit =>
      rw [(CodePiece.number digit).eq, takeWhile_lowerTags (by decide)]
      exact .run _ rfl (by decide)
  | name named =>
      rw [(CodePiece.name named).eq, takeWhile_lowerTags (by decide)]
      exact .run _ rfl (by decide)
  | mark alone =>
      have read : CodePiece c (lowerTags rest) (.ok (.lexeme (.punct c) 0)) :=
        .mark {
          alone with
          notClosing := head ▸ alone.notClosing
          notNullsafe := two ▸ alone.notNullsafe
          notArrow := head ▸ alone.notArrow
          notColons := head ▸ alone.notColons
          notLine := head ▸ alone.notLine
          notBlock := head ▸ alone.notBlock
          notHeredoc := two ▸ alone.notHeredoc
          notVariable := sameStart ▸ alone.notVariable }
      rw [read.eq]
      exact .plain _ rfl (by simp)

theorem startsWithIgnoringCase_plain {word text : List Char} (plain : '<' ∉ Text.lowerAscii word)
    (starts : startsWithIgnoringCase word text = true) : '<' ∉ text.take word.length := by
  intro membership
  have same : Text.lowerAscii word = Text.lowerAscii (text.take word.length) := by
    simpa [startsWithIgnoringCase, Text.sameIgnoringCase] using starts
  rw [same] at plain
  exact plain (List.mem_map.mpr ⟨'<', membership, by decide⟩)

theorem startsWithIgnoringCase_lowerTags {word : List Char} (plain : '<' ∉ Text.lowerAscii word)
    (text : List Char) :
    startsWithIgnoringCase word (lowerTags text) = startsWithIgnoringCase word text := by
  by_cases membership : '<' ∈ text.take word.length
  · have first : startsWithIgnoringCase word text = false :=
      Bool.eq_false_iff.mpr fun starts => startsWithIgnoringCase_plain plain starts membership
    have second : startsWithIgnoringCase word (lowerTags text) = false := by
      refine Bool.eq_false_iff.mpr fun starts => startsWithIgnoringCase_plain plain starts ?_
      exact (mem_take_lowerTags _ text).mpr membership
    rw [first, second]
  · rw [startsWithIgnoringCase, startsWithIgnoringCase, take_lowerTags_of_plain membership]

theorem endsOrStarts_lowerTags (p : Char → Bool) (text : List Char) :
    endsOrStarts p (lowerTags text) = endsOrStarts p text := by
  rw [endsOrStarts, endsOrStarts, head?_lowerTags]

theorem word_lowerTags {word : List Char} (plain : '<' ∉ Text.lowerAscii word) (p : Char → Bool)
    (text : List Char) :
    (startsWithIgnoringCase word (lowerTags text) = true ∧
        endsOrStarts p ((lowerTags text).drop word.length) = true) =
      (startsWithIgnoringCase word text = true ∧
        endsOrStarts p (text.drop word.length) = true) := by
  rw [startsWithIgnoringCase_lowerTags plain]
  refine propext (and_congr_right fun starts => ?_)
  rw [drop_lowerTags_of_plain (startsWithIgnoringCase_plain plain starts), endsOrStarts_lowerTags]

theorem openTag?_lowerTags (text : List Char) : openTag? (lowerTags text) = openTag? text := by
  cases text using tagCases with
  | nil => rw [lowerTags_nil]
  | tag rest ends =>
      rw [lowerTags_tag ends]
      rfl
  | cons c rest plain =>
      rw [lowerTags_cons plain]
      by_cases mark : c = '?'
      · subst mark
        have php := @word_lowerTags ['p', 'h', 'p'] (by decide) isSpace rest
        have hack := @word_lowerTags ['h', 'h'] (by decide) (!isNameChar ·) rest
        simp only [List.length_cons, List.length_nil, Nat.zero_add, Nat.reduceAdd] at php hack
        simp only [openTag?, php, hack, head?_lowerTags, endsOrStarts_lowerTags]
      · unfold openTag?
        split
        case h_1 more whole => exact absurd (List.cons.inj whole).1 mark
        case h_2 =>
            split
            case h_1 more whole => exact absurd (List.cons.inj whole).1 mark
            case h_2 => rfl

theorem openTag?_plain {text : List Char} {more : Nat} (found : openTag? text = some more) :
    '<' ∉ text.take more := by
  unfold openTag? at found
  split at found
  case h_2 => cases found
  case h_1 rest =>
      split at found
      case isTrue php =>
          cases found
          simpa using startsWithIgnoringCase_plain (by decide) php.1
      case isFalse =>
          split at found
          case isTrue hack =>
              cases found
              simpa using startsWithIgnoringCase_plain (by decide) hack.1
          case isFalse =>
              split at found
              case isTrue echo =>
                  cases found
                  obtain ⟨more, rfl⟩ := List.head?_eq_some_iff.mp echo
                  simp
              case isFalse =>
                  split at found
                  case isTrue => cases found; simp
                  case isFalse => cases found

theorem htmlPiece_lowerTags :
    SamePiece rest (.ok (htmlPiece c rest)) (.ok (htmlPiece c (lowerTags rest))) := by
  unfold htmlPiece
  rw [openTag?_lowerTags]
  split
  case h_1 more found =>
      split at found
      case isTrue => exact .plain _ rfl (openTag?_plain found)
      case isFalse => cases found
  case h_2 => exact .gap rfl

theorem piece_lowerTags (mode : Mode) :
    SamePiece rest (piece mode c rest) (piece mode c (lowerTags rest)) := by
  cases mode with
  | html => exact htmlPiece_lowerTags
  | code => exact codePiece_lowerTags

end Pieces

/-- Whether the lexer, at this place, reads a tag that is rewritten as it read it before: it has to
be in inline text, where white space or the end of the text comes behind the tag, or a character for
which neither form is a tag. -/
def keepsTag (mode : Mode) (text : List Char) : Bool :=
  !startsTag text || mode == .html &&
    (endsOrStarts isSpace (text.drop 4) || !endsOrStarts (!isNameChar ·) (text.drop 4))

/-- Whether every tag that the lexer comes to, outside of strings and comments, is kept. -/
def keepsTags (mode : Mode) : List Char → Bool
  | [] => true
  | c :: rest =>
    keepsTag mode (c :: rest) &&
      match piece mode c rest with
      | .error _ => true
      | .ok found => keepsTags (found.next mode) (rest.drop found.more)
termination_by cs => cs.length
decreasing_by all_goals simp only [List.length_drop, List.length_cons]; omega

section Tags

variable {rest : List Char}

theorem not_php : startsWithIgnoringCase ['p', 'h', 'p'] ('h' :: 'h' :: rest) = false := by
  simp [startsWithIgnoringCase, Text.sameIgnoringCase, Text.lowerAscii]

theorem htmlPiece_hackTag (stops : endsOrStarts isSpace rest = true) :
    htmlPiece '<' ('?' :: 'h' :: 'h' :: rest) = .lexeme .openTag 3 := by
  have notNamed : endsOrStarts (!isNameChar ·) rest = true := by
    cases rest with
    | nil => rfl
    | cons c rest => simpa [endsOrStarts] using isNameChar_of_isSpace c stops
  have hack : startsWithIgnoringCase ['h', 'h'] ('h' :: 'h' :: rest) = true := rfl
  simp [htmlPiece, openTag?, not_php, hack, notNamed]

theorem htmlPiece_phpTag (stops : endsOrStarts isSpace rest = true) :
    htmlPiece '<' ('?' :: 'p' :: 'h' :: 'p' :: rest) = .lexeme .openTag 4 := by
  have php : startsWithIgnoringCase ['p', 'h', 'p'] ('p' :: 'h' :: 'p' :: rest) = true := rfl
  simp [htmlPiece, openTag?, php, stops]

theorem htmlPiece_glued (glued : endsOrStarts (!isNameChar ·) rest = false) :
    htmlPiece '<' ('?' :: 'h' :: 'h' :: rest) = .gap 0 ∧
      htmlPiece '<' ('?' :: 'p' :: 'h' :: 'p' :: rest) = .gap 0 := by
  have noSpace : endsOrStarts isSpace rest = false := by
    cases rest with
    | nil => cases glued
    | cons c rest =>
        rw [Bool.eq_false_iff]
        intro space
        have named : isNameChar c = true := by simpa [endsOrStarts] using glued
        rw [isNameChar_of_isSpace c space] at named
        cases named
  have notHack : startsWithIgnoringCase ['h', 'h'] ('p' :: 'h' :: 'p' :: rest) = false := rfl
  have letters : endsOrStarts isSpace ('p' :: 'h' :: 'p' :: rest) = false ∧
      endsOrStarts isSpace ('h' :: 'h' :: rest) = false := ⟨rfl, rfl⟩
  constructor
  · simp [htmlPiece, openTag?, not_php, glued, letters]
  · simp [htmlPiece, openTag?, notHack, noSpace, letters]

theorem keepsTags_skip {c : Char} (differs : c ≠ '<') :
    keepsTags .html (c :: rest) = keepsTags .html rest := by
  rw [keepsTags, keepsTag, startsTag_of_ne rest differs, piece, htmlPiece_of_ne rest differs]
  rfl

theorem tokens_tag {mode : Mode} (ends : rest.head?.any Text.isWord = false)
    (kept : keepsTags mode ('<' :: '?' :: 'h' :: 'h' :: rest) = true) :
    ∃ (next : Mode) (found : List Token), keepsTags next rest = true ∧
      tokens mode ('<' :: '?' :: 'h' :: 'h' :: rest) = prepend found (tokens next rest) ∧
      tokens mode ('<' :: '?' :: 'p' :: 'h' :: 'p' :: lowerTags rest) =
        prepend found (tokens next (lowerTags rest)) ∧
      found.map lowerLiteral = found := by
  rw [keepsTags, keepsTag, startsTag, ends] at kept
  simp only [Bool.not_false, Bool.not_true, Bool.false_or, Bool.and_eq_true, beq_iff_eq,
    List.drop_succ_cons, List.drop_zero, Bool.or_eq_true, Bool.not_eq_true'] at kept
  obtain ⟨⟨rfl, behind⟩, later⟩ := kept
  rcases behind with stops | glued
  · have alsoStops : endsOrStarts isSpace (lowerTags rest) = true := by
      rw [endsOrStarts_lowerTags, stops]
    rw [piece, htmlPiece_hackTag stops] at later
    refine ⟨.code, [.openTag], later, ?_, ?_, rfl⟩
    · rw [tokens_cons, piece, htmlPiece_hackTag stops]
      rfl
    · rw [tokens_cons, piece, htmlPiece_phpTag alsoStops]
      rfl
  · have alsoGlued : endsOrStarts (!isNameChar ·) (lowerTags rest) = false := by
      rw [endsOrStarts_lowerTags, glued]
    have skips : ∀ c ∈ ['?', 'h', 'p'], ∀ text, htmlPiece c text = .gap 0 := by
      intro c inTag text
      refine htmlPiece_of_ne text ?_
      rintro rfl
      simp at inTag
    rw [piece, (htmlPiece_glued glued).1] at later
    change keepsTags .html ('?' :: 'h' :: 'h' :: rest) = true at later
    rw [keepsTags_skip (by decide), keepsTags_skip (by decide), keepsTags_skip (by decide)] at later
    refine ⟨.html, [], later, ?_, ?_, rfl⟩
    · rw [tokens_skip (htmlPiece_glued glued).1, prepend_nil]
      iterate 3 rw [tokens_skip (skips _ (by simp) _)]
    · rw [tokens_skip (htmlPiece_glued alsoGlued).2, prepend_nil]
      iterate 4 rw [tokens_skip (skips _ (by simp) _)]

end Tags

theorem map_prepend (found : List Token) (outcome : Except LexFault (List Token)) :
    (prepend found outcome).map (List.map lowerLiteral) =
      prepend (found.map lowerLiteral) (outcome.map (List.map lowerLiteral)) := by
  cases outcome <;> simp [prepend, Except.map]

/-- The tokens of a rewritten text, by induction over the pieces of the original. -/
theorem tokens_lowerTags {mode : Mode} {text : List Char} (kept : keepsTags mode text = true) :
    tokens mode (lowerTags text) = (tokens mode text).map (List.map lowerLiteral) := by
  induction size : text.length using Nat.strongRecOn generalizing mode text with
  | ind _ inductionHypothesis =>
      subst size
      cases text using tagCases with
      | nil => rw [lowerTags_nil, tokens_nil]; rfl
      | tag rest ends =>
          have shorter : rest.length < ('<' :: '?' :: 'h' :: 'h' :: rest).length := by
            simp only [List.length_cons]
            omega
          obtain ⟨next, found, later, isText, isLowered, same⟩ := tokens_tag ends kept
          rw [lowerTags_tag ends, isText, isLowered, inductionHypothesis _ shorter later rfl,
            map_prepend, same]
      | cons c rest plain =>
          rw [keepsTags, Bool.and_eq_true] at kept
          obtain ⟨-, later⟩ := kept
          rw [lowerTags_cons plain, tokens_cons, tokens_cons]
          have same : SamePiece rest (piece mode c rest) (piece mode c (lowerTags rest)) :=
            piece_lowerTags mode
          generalize piece mode c rest = first at same later ⊢
          generalize piece mode c (lowerTags rest) = second at same ⊢
          cases same with
          | @read found other next isLowered behind =>
              have shorter : (rest.drop found.more).length < (c :: rest).length := by
                rw [List.length_drop, List.length_cons]
                omega
              simp only [behind, next, isLowered]
              rw [inductionHypothesis _ shorter later rfl, map_prepend]
          | faulty fault place other => rfl

/-- A source all of whose tags are kept lexes after they are rewritten just if it did before. Then
it has the same tokens, and only the texts of strings may differ. -/
theorem lex_lowerTags {source : List Char} (kept : keepsTags .html source = true) :
    match lex .html source with
    | .ok lexemes => ∃ lowered, lex .html (lowerTags source) = .ok lowered ∧
        lowered.map Lexeme.token = lexemes.map fun lexeme => lowerLiteral lexeme.token
    | .error e => ∃ failed, lex .html (lowerTags source) = .error failed ∧
        failed.fault = e.fault := by
  have same := tokens_lowerTags kept
  unfold tokens at same
  cases found : lex .html source with
  | ok lexemes =>
      cases lowered : lex .html (lowerTags source) with
      | ok others =>
          rw [found, lowered] at same
          refine ⟨others, rfl, ?_⟩
          simpa [Except.map, Function.comp_def] using same
      | error failed => simp [found, lowered, Except.map] at same
  | error e =>
      cases lowered : lex .html (lowerTags source) with
      | ok others => simp [found, lowered, Except.map] at same
      | error failed =>
          rw [found, lowered] at same
          exact ⟨failed, rfl, Except.error.inj same⟩

def classAndTags : List Char :=
  "<?hh class A;//<?hh\n'<?hh'".toList

theorem lex_lowerTags_classAndTags :
    keepsTags .html classAndTags = true ∧
      ∃ lowered, lex .html (lowerTags classAndTags) = .ok lowered ∧
        lowered.map Lexeme.token =
          [.openTag, .ident "class".toList, .ident ['A'], .punct ';', .str "'<?php'".toList] := by
  have kept : keepsTags .html classAndTags = true := by decide +kernel
  have lexed : lex .html classAndTags =
      .ok [⟨.openTag, 0, 4⟩, ⟨.ident "class".toList, 5, 10⟩, ⟨.ident ['A'], 11, 12⟩,
        ⟨.punct ';', 12, 13⟩, ⟨.str "'<?hh'".toList, 20, 26⟩] := by
    decide +kernel
  have same := lex_lowerTags kept
  rw [lexed] at same
  obtain ⟨lowered, relexed, equal⟩ := same
  refine ⟨kept, lowered, relexed, ?_⟩
  rw [equal]
  decide +kernel

/-- A comment may follow the tag of Hack at once, but not the tag that it becomes. -/
theorem tokens_commentBehindTag :
    let source := "<?hh/**/ class A".toList
    lowerElements source = source ∧
      tokens .html source = .ok [.openTag, .ident "class".toList, .ident ['A']] ∧
      tokens .html (lowerTags source) = .ok [] := by
  decide +kernel

end AutoloadIndex.Dialect
