import Mathlib.Data.List.Chain
import AutoloadIndex.Proofs.Relexing

set_option autoImplicit false

/-!
The lexer cuts a source into lexemes and gaps without losing anything. In code a gap is white space
and comments, in inline text it is anything in which no tag opens.
-/

namespace AutoloadIndex

namespace Text

/-- A stretch of a text that starts at an offset, by the bytes it takes up, and what is behind it. -/
def IsSlice (offset : Nat) (text : List Char) (start stop : Nat) (slice behind : List Char) : Prop :=
  ∃ front, text = front ++ slice ++ behind ∧ start = offset + width front ∧
    stop = start + width slice

namespace IsSlice

variable {offset start stop : Nat} {text slice behind : List Char}

theorem first (slice behind : List Char) :
    IsSlice offset (slice ++ behind) offset (offset + width slice) slice behind :=
  ⟨[], rfl, rfl, rfl⟩

theorem later (front : List Char)
    (isSlice : IsSlice (offset + width front) text start stop slice behind) :
    IsSlice offset (front ++ text) start stop slice behind := by
  obtain ⟨middle, rfl, rfl, rfl⟩ := isSlice
  refine ⟨front ++ middle, by simp, ?_, rfl⟩
  rw [width_append, Nat.add_assoc]

theorem at_start (isSlice : IsSlice offset text offset stop slice behind) :
    text = slice ++ behind ∧ stop = offset + width slice := by
  obtain ⟨front, rfl, start, rfl⟩ := isSlice
  cases front with
  | nil => exact ⟨rfl, rfl⟩
  | cons c front =>
      have positive := c.utf8Size_pos
      rw [width_cons] at start
      omega

theorem stop_le (isSlice : IsSlice offset text start stop slice behind) :
    stop ≤ offset + width text := by
  obtain ⟨front, rfl, rfl, rfl⟩ := isSlice
  simp only [width_append]
  omega

end IsSlice

end Text

namespace Lexeme

open Text (IsSlice)

/-- The text of a comment of code from its opening mark on, and what is behind it. A block comment
goes up to the first end mark, a line comment up to a line break, a close tag or the end. -/
inductive Comment : List Char → List Char → Prop where
  | block {body behind : List Char}
      (firstEnd : ∀ before after, body ++ ['*', '/'] = before ++ '*' :: '/' :: after → after = []) :
      Comment ('/' :: '*' :: (body ++ ['*', '/'])) behind
  | line {mark body behind : List Char}
      (opens : mark = ['/', '/'] ∨ mark = ['#'] ∧ (body ++ behind).head? ≠ some '[')
      (oneLine : '\n' ∉ body)
      (untagged : ∀ before after, body ++ behind = before ++ '?' :: '>' :: after →
        body.length ≤ before.length)
      (ends : behind = [] ∨ behind.head? = some '\n' ∨ behind.take 2 = ['?', '>']) :
      Comment (mark ++ body) behind

/-- White space and comments, in front of the text behind them. -/
inductive Blank : List Char → List Char → Prop where
  | nil {behind : List Char} : Blank [] behind
  | space {c : Char} {gap behind : List Char} (space : isSpace c = true) (later : Blank gap behind) :
      Blank (c :: gap) behind
  | comment {comment gap behind : List Char} (isComment : Comment comment (gap ++ behind))
      (later : Blank gap behind) : Blank (comment ++ gap) behind

/-- No tag opens inside the text, also not with the help of what is behind it. -/
def Tagless (text behind : List Char) : Prop :=
  ∀ before after, text = before ++ '<' :: after → ∀ more, ¬ OpenTag (after ++ behind) more

def Clear : Mode → List Char → List Char → Prop
  | .html => Tagless
  | .code => Blank

structure Gap where
  mode : Mode
  start : Nat
  stop : Nat
deriving DecidableEq, Repr

/-- The gaps in front of, between and behind lexemes, of a text that takes up the bytes between two
offsets. -/
def gaps (mode : Mode) (start stop : Nat) : List Lexeme → List Gap
  | [] => [⟨mode, start, stop⟩]
  | lexeme :: rest =>
    ⟨mode, start, lexeme.start⟩ :: gaps lexeme.token.following lexeme.stop stop rest

theorem lineComment_take (text : List Char) :
    ∃ body behind, text = body ++ behind ∧ lineComment text = body.length ∧ '\n' ∉ body ∧
      (∀ before after, text = before ++ '?' :: '>' :: after → body.length ≤ before.length) ∧
      (behind = [] ∨ behind.head? = some '\n' ∨ behind.take 2 = ['?', '>']) := by
  induction text with
  | nil => exact ⟨[], [], rfl, rfl, by simp, by simp, .inl rfl⟩
  | cons c rest inductionHypothesis =>
      by_cases ends : c = '\n' ∨ (c = '?' ∧ rest.head? = some '>')
      · refine ⟨[], c :: rest, rfl, if_pos ends, by simp, by simp, .inr ?_⟩
        rcases ends with rfl | ⟨rfl, next⟩
        · exact .inl rfl
        · obtain ⟨rest, rfl⟩ := List.head?_eq_some_iff.mp next
          exact .inr rfl
      · obtain ⟨body, behind, rfl, length, oneLine, untagged, stop⟩ := inductionHypothesis
        rw [not_or] at ends
        refine ⟨c :: body, behind, rfl, ?_, ?_, ?_, stop⟩
        · rw [lineComment, if_neg (not_or.mpr ends), length, List.length_cons]
        · simpa [oneLine] using Ne.symm ends.1
        · intro before after whole
          cases before with
          | nil =>
              obtain ⟨rfl, rest⟩ := List.cons.inj whole
              exact absurd ⟨rfl, by rw [rest]; rfl⟩ ends.2
          | cons d before =>
              rw [List.cons_append, List.cons.injEq] at whole
              simpa using untagged before after whole.2

theorem blockComment_take {text : List Char} {more : Nat} (found : blockComment text = some more) :
    ∃ body behind, text = body ++ ['*', '/'] ++ behind ∧ more = body.length + 2 ∧
      ∀ before after, body ++ ['*', '/'] = before ++ '*' :: '/' :: after → after = [] := by
  induction text generalizing more with
  | nil => simp [blockComment] at found
  | cons c rest inductionHypothesis =>
      rw [blockComment] at found
      split at found
      case isTrue closing =>
          obtain ⟨behind, rfl⟩ := List.head?_eq_some_iff.mp closing.2
          obtain rfl := closing.1
          cases found
          refine ⟨[], behind, rfl, rfl, ?_⟩
          intro before after whole
          have length := congrArg List.length whole
          simp only [List.nil_append, List.length_append, List.length_cons, List.length_nil]
            at length
          exact List.eq_nil_of_length_eq_zero (by omega)
      case isFalse open_ =>
          obtain ⟨later, inRest, rfl⟩ := Option.map_eq_some_iff.mp found
          obtain ⟨body, behind, rfl, rfl, firstEnd⟩ := inductionHypothesis inRest
          refine ⟨c :: body, behind, rfl, rfl, ?_⟩
          intro before after whole
          cases before with
          | nil =>
              -- The end mark would start with this character.
              rw [List.cons_append, List.nil_append, List.cons.injEq] at whole
              exact absurd ⟨whole.1, by rw [whole.2]; rfl⟩ open_
          | cons d before =>
              rw [List.cons_append, List.cons_append, List.cons.injEq] at whole
              exact firstEnd before after whole.2

theorem Comment.of_lineComment {mark front text : List Char}
    (opens : mark = ['/', '/'] ∨ mark = ['#'] ∧ (front ++ text).head? ≠ some '[')
    (length : lineComment (front ++ text) = front.length) : Comment (mark ++ front) text := by
  obtain ⟨body, behind, whole, extent, oneLine, untagged, ends⟩ := lineComment_take (front ++ text)
  obtain ⟨rfl, rfl⟩ := List.append_inj whole (length.symm.trans extent)
  exact .line opens oneLine untagged ends

theorem Comment.of_blockComment {front text : List Char}
    (found : blockComment (front ++ text) = some front.length) :
    Comment ('/' :: '*' :: front) text := by
  obtain ⟨body, behind, whole, length, firstEnd⟩ := blockComment_take found
  have sameLength : front.length = (body ++ ['*', '/']).length := by simpa using length
  obtain ⟨rfl, rfl⟩ := List.append_inj whole sameLength
  exact .block firstEnd

/-- A gap of code is one white space character or one comment. -/
theorem codePiece_gap {c : Char} {front text : List Char}
    (read : codePiece c (front ++ text) = .ok (.gap front.length)) :
    isSpace c = true ∧ front = [] ∨ Comment (c :: front) text := by
  have reads := codePiece_reads c (front ++ text)
  rw [read] at reads
  generalize length : front.length = more at reads
  cases reads with
  | space space => exact .inl ⟨space, List.eq_nil_of_length_eq_zero length⟩
  | lineComment opens =>
      right
      rcases opens with ⟨rfl, next⟩ | ⟨rfl, next⟩
      · -- The second slash belongs to the mark of the comment.
        cases front with
        | nil =>
            obtain ⟨rest, rfl⟩ := List.head?_eq_some_iff.mp next
            simp [lineComment] at length
        | cons d front =>
            cases next
            exact Comment.of_lineComment (.inl rfl) (by simpa [lineComment] using length.symm)
      · exact Comment.of_lineComment (.inr ⟨rfl, next⟩) length.symm
  | @blockComment more slash star closed =>
      right
      cases front with
      | nil => simp at length
      | cons d front =>
          cases star
          obtain rfl : front.length = more := by simpa using length
          rw [slash]
          exact Comment.of_blockComment closed

theorem codePiece_text {c : Char} {front text name : List Char} {token : Token}
    (read : codePiece c (front ++ text) = .ok (.lexeme token front.length))
    (named : token = .ident name ∨ token = .str name) : name = c :: front := by
  have reads := codePiece_reads c (front ++ text)
  rw [read] at reads
  generalize length : front.length = more at reads
  cases reads with
  | @quoted quote more mark extent =>
      rw [← length, List.take_left] at named
      rcases quote.token_cases (c :: front) with isToken | isToken <;> rw [isToken] at named <;>
        rcases named with isName | isString
      · cases isName
      · cases isString
      · cases isName
      · exact (Token.str.inj isString).symm
  | name =>
      have isFront : (front ++ text).takeWhile isNameChar = front := by
        rw [List.prefix_iff_eq_take.mp (List.takeWhile_prefix _), ← length, List.take_left]
      rw [isFront] at named
      rcases named with isName | isString
      · exact (Token.ident.inj isName).symm
      · cases isString
  | _ => rcases named with isName | isString <;> contradiction

theorem Clear.nil (mode : Mode) (behind : List Char) : Clear mode [] behind := by
  cases mode with
  | html =>
      intro before after empty
      simp at empty
  | code => exact Blank.nil

theorem Clear.cons_piece {mode : Mode} {c : Char} {front gap behind : List Char}
    (read : piece mode c (front ++ (gap ++ behind)) = .ok (.gap front.length))
    (clear : Clear mode gap behind) : Clear mode (c :: front ++ gap) behind := by
  cases mode with
  | code =>
      rcases codePiece_gap read with ⟨space, rfl⟩ | comment
      · exact Blank.space space clear
      · exact Blank.comment comment clear
  | html =>
      have isGap : htmlPiece c (front ++ (gap ++ behind)) = .gap front.length := Except.ok.inj read
      obtain rfl := htmlPiece_gap isGap
      intro before after whole more tag
      cases before with
      | nil =>
          obtain ⟨rfl, rfl⟩ := List.cons.inj whole
          have opens : openTag? (gap ++ behind) = some more := openTag?_eq_some_iff.mpr tag
          simp [htmlPiece, opens] at isGap
      | cons d before => exact clear before after (List.cons.inj whole).2 more tag

def Gap.IsClear (offset : Nat) (text : List Char) (gap : Gap) : Prop :=
  ∃ slice behind, IsSlice offset text gap.start gap.stop slice behind ∧ Clear gap.mode slice behind

theorem Gap.IsClear.later {offset : Nat} {text : List Char} {gap : Gap} (front : List Char)
    (clear : gap.IsClear (offset + Text.width front) text) :
    gap.IsClear offset (front ++ text) := by
  obtain ⟨slice, behind, isSlice, isClear⟩ := clear
  exact ⟨slice, behind, isSlice.later front, isClear⟩

theorem gaps_eq_cons (mode : Mode) (stop : Nat) (lexemes : List Lexeme) :
    ∃ first others, ∀ start, gaps mode start stop lexemes = ⟨mode, start, first⟩ :: others := by
  cases lexemes with
  | nil => exact ⟨stop, [], fun _ => rfl⟩
  | cons lexeme rest => exact ⟨lexeme.start, _, fun _ => rfl⟩

def tags (lexemes : List Lexeme) : List Token :=
  (lexemes.map Lexeme.token).filter fun token => token = .openTag ∨ token = .closeTag

def Mode.ending : Mode → Token
  | .html => .openTag
  | .code => .closeTag

namespace Lexes

variable {mode : Mode} {offset : Nat} {text : List Char} {lexemes : List Lexeme}

theorem gaps_clear (lexes : Lexes mode offset text lexemes) :
    ∀ gap ∈ gaps mode offset (offset + Text.width text) lexemes, gap.IsClear offset text := by
  induction lexes with
  | @done mode offset =>
      simp only [gaps, List.forall_mem_singleton]
      exact ⟨[], [], IsSlice.first [] [], Clear.nil mode []⟩
  | @gap mode offset c front text lexemes read later inductionHypothesis =>
      have ends : offset + Text.width (c :: (front ++ text)) =
          offset + Text.width (c :: front) + Text.width text := by
        rw [← List.cons_append, Text.width_append, Nat.add_assoc]
      obtain ⟨first, others, equation⟩ :=
        gaps_eq_cons mode (offset + Text.width (c :: front) + Text.width text) lexemes
      rw [equation, List.forall_mem_cons] at inductionHypothesis
      rw [ends, equation, List.forall_mem_cons]
      obtain ⟨⟨slice, behind, isSlice, clear⟩, othersClear⟩ := inductionHypothesis
      obtain ⟨rfl, rfl⟩ := isSlice.at_start
      refine ⟨⟨c :: front ++ slice, behind, ⟨[], by simp, rfl, ?_⟩, clear.cons_piece read⟩, ?_⟩
      · rw [Text.width_append, Nat.add_assoc]
      · intro gap membership
        exact (othersClear gap membership).later (c :: front)
  | @lexeme mode offset c front text token lexemes read later inductionHypothesis =>
      rw [gaps, List.forall_mem_cons]
      refine ⟨⟨[], c :: (front ++ text), ⟨[], rfl, rfl, rfl⟩, Clear.nil mode _⟩, ?_⟩
      intro gap membership
      rw [← List.cons_append, Text.width_append, ← Nat.add_assoc] at membership
      exact (inductionHypothesis gap membership).later (c :: front)

theorem slices (lexes : Lexes mode offset text lexemes) :
    ∀ lexeme ∈ lexemes, ∃ slice behind,
      IsSlice offset text lexeme.start lexeme.stop slice behind ∧ slice ≠ [] ∧
        ∀ name, lexeme.token = .ident name ∨ lexeme.token = .str name → name = slice := by
  induction lexes with
  | done => simp
  | @gap mode offset c front text lexemes read later inductionHypothesis =>
      intro lexeme membership
      obtain ⟨slice, behind, isSlice, filled, named⟩ := inductionHypothesis lexeme membership
      exact ⟨slice, behind, isSlice.later (c :: front), filled, named⟩
  | @lexeme mode offset c front text token lexemes read later inductionHypothesis =>
      rw [List.forall_mem_cons]
      refine ⟨⟨c :: front, text, ⟨[], rfl, rfl, rfl⟩, by simp, ?_⟩, ?_⟩
      · intro name named
        cases mode with
        | code => exact codePiece_text read named
        | html =>
            have isTag : token = .openTag := (piece_openTag_iff read).mpr rfl
            simp [isTag] at named
      · intro lexeme membership
        obtain ⟨slice, behind, isSlice, filled, named⟩ := inductionHypothesis lexeme membership
        exact ⟨slice, behind, isSlice.later (c :: front), filled, named⟩

/-- The first tag ends the mode in which the text starts, and tags take turns. -/
theorem tags_alternate (lexes : Lexes mode offset text lexemes) :
    (∀ tag ∈ (tags lexemes).head?, tag = mode.ending) ∧ (tags lexemes).IsChain (· ≠ ·) := by
  induction lexes with
  | done => simp [tags]
  | gap read later inductionHypothesis => exact inductionHypothesis
  | @lexeme mode offset c front text token lexemes read later inductionHypothesis =>
      obtain ⟨first, alternate⟩ := inductionHypothesis
      have opens := piece_openTag_iff read
      cases mode with
      | html =>
          obtain rfl : token = .openTag := opens.mpr rfl
          refine ⟨fun tag isFirst => (Option.some.inj isFirst).symm, alternate.cons ?_⟩
          intro second isSecond
          rw [first second isSecond]
          exact Token.noConfusion
      | code =>
          have notOpen : token ≠ .openTag := fun isOpen => Mode.noConfusion (opens.mp isOpen)
          by_cases closes : token = .closeTag
          · subst closes
            refine ⟨fun tag isFirst => (Option.some.inj isFirst).symm, alternate.cons ?_⟩
            intro second isSecond
            rw [first second isSecond]
            exact Token.noConfusion
          · have inCode : token.following = .code := by
              cases token <;> first | rfl | exact absurd rfl closes
            have sameTags : tags (⟨token, offset, offset + Text.width (c :: front)⟩ :: lexemes) =
                tags lexemes := by
              simp [tags, notOpen, closes]
            rw [sameTags]
            rw [inCode] at first
            exact ⟨first, alternate⟩

end Lexes

/-- Lexemes and gaps make up the whole source, which starts in the given mode. -/
structure Partitions (mode : Mode) (source : List Char) (lexemes : List Lexeme) : Prop where
  filled : ∀ lexeme ∈ lexemes, lexeme.start < lexeme.stop
  inside : ∀ lexeme ∈ lexemes, lexeme.stop ≤ Text.width source
  ordered : lexemes.Pairwise fun first second => first.stop ≤ second.start
  named : ∀ lexeme ∈ lexemes, ∀ text, lexeme.token = .ident text ∨ lexeme.token = .str text →
    ∃ behind, IsSlice 0 source lexeme.start lexeme.stop text behind
  firstTag : ∀ tag ∈ (tags lexemes).head?, tag = mode.ending
  alternating : (tags lexemes).IsChain (· ≠ ·)
  clear : ∀ gap ∈ gaps mode 0 (Text.width source) lexemes, gap.IsClear 0 source

theorem lex_partitions {mode : Mode} {source : List Char} {lexemes : List Lexeme}
    (lexed : lex mode source = .ok lexemes) : Partitions mode source lexemes := by
  have lexes : Lexes mode 0 source lexemes := lexes_of_lexFrom lexed
  constructor
  case filled => exact fun lexeme membership => (lexes.bounds lexeme membership).2
  case inside =>
      intro lexeme membership
      obtain ⟨slice, behind, isSlice, -, -⟩ := lexes.slices lexeme membership
      simpa using isSlice.stop_le
  case ordered => exact lexes.ascending
  case named =>
      intro lexeme membership text isText
      obtain ⟨slice, behind, isSlice, -, sameText⟩ := lexes.slices lexeme membership
      rw [sameText text isText]
      exact ⟨behind, isSlice⟩
  case firstTag => exact lexes.tags_alternate.1
  case alternating => exact lexes.tags_alternate.2
  case clear =>
      have clear := lexes.gaps_clear
      rwa [Nat.zero_add] at clear

/-- Text that looks like a tag, both kinds of comments, a name and a string beyond ASCII. -/
def taggedSource : List Char :=
  "<?<?php /*?>*/é('é\x7b')//x?>b<?=#y".toList

def taggedLexemes : List Lexeme := [
  ⟨.openTag, 2, 7⟩, ⟨.ident ['é'], 14, 16⟩, ⟨.punct '(', 16, 17⟩,
  ⟨.str ['\'', 'é', '{', '\''], 17, 22⟩, ⟨.punct ')', 22, 23⟩, ⟨.closeTag, 26, 28⟩,
  ⟨.openTag, 29, 32⟩]

theorem partitions_taggedSource :
    lex .html taggedSource = .ok taggedLexemes ∧
      Partitions .html taggedSource taggedLexemes := by
  have found : (lex .html taggedSource).toOption = some taggedLexemes := by decide +kernel
  have lexed : lex .html taggedSource = .ok taggedLexemes := by
    cases result : lex .html taggedSource with
    | error fault => simp [result, Except.toOption] at found
    | ok lexemes => simpa [result, Except.toOption] using found
  exact ⟨lexed, lex_partitions lexed⟩

end Lexeme

end AutoloadIndex
