import AutoloadIndex.Lexeme.Piece
import AutoloadIndex.Proofs.ExtentLocality

set_option autoImplicit false

/-!
What a piece of the lexer depends on. A piece is decided by its own characters and by very few
behind it, so it stays the same if the text behind it is replaced by white space. There are two
exceptions: the end of a line comment and the mark of an attribute need what follows them.
-/

namespace AutoloadIndex.Lexeme

theorem isNameStart_of_isSpace (c : Char) (space : isSpace c = true) : isNameStart c = false := by
  rcases isSpace_cases space with rfl | rfl | rfl | rfl | rfl <;> decide

/-- No sign of another piece comes about behind a character where the text fades. -/
theorem Alone.of_fades {c : Char} {rest other : List Char} (alone : Alone c rest)
    (fades : Fades rest other) : Alone c other := by
  have noMark : ∀ d e, isSpace e = false → ¬ (c = d ∧ rest.head? = some e) →
      ¬ (c = d ∧ other.head? = some e) := by
    rintro d e visible differ ⟨equality, head⟩
    exact differ ⟨equality, fades.head?_eq visible head⟩
  have noMarks : ∀ d e f, isSpace e = false → isSpace f = false →
      ¬ (c = d ∧ rest.take 2 = [e, f]) → ¬ (c = d ∧ other.take 2 = [e, f]) := by
    rintro d e f visible alsoVisible differ ⟨equality, marks⟩
    exact differ ⟨equality, fades.take_two_eq visible alsoVisible marks⟩
  have noVariable : ¬ (c = '$' ∧ startsVariable other = true) := by
    rintro ⟨dollar, starts⟩
    have stop := fades.stops (fun d space => by simp [isNameStart_of_isSpace d space])
      (Bool.eq_false_iff.mpr fun named => alone.notVariable ⟨dollar, named⟩)
    exact absurd (stop.symm.trans starts) (by simp)
  exact {
    alone with
    notClosing := noMark _ _ (by decide) alone.notClosing
    notNullsafe := noMarks _ _ _ (by decide) (by decide) alone.notNullsafe
    notArrow := noMark _ _ (by decide) alone.notArrow
    notColons := noMark _ _ (by decide) alone.notColons
    notLine := noMark _ _ (by decide) alone.notLine
    notBlock := noMark _ _ (by decide) alone.notBlock
    notHeredoc := noMarks _ _ _ (by decide) (by decide) alone.notHeredoc
    notVariable := noVariable }

/-- A piece of code stays the same if the text behind it fades, as long as a line break or a close
tag behind a line comment and the bracket behind the mark of an attribute stay. -/
theorem codePiece_local {c : Char} {front text other : List Char} {found : Piece}
    (fades : Fades text other)
    (lineBreak : ∀ more, found = .gap more → text.head? = some '\n' → other.head? = some '\n')
    (closeTag : ∀ more, found = .gap more → text.take 2 = ['?', '>'] → other.take 2 = ['?', '>'])
    (bracket : found = .lexeme (.punct '#') 0 → other.head? = text.head?)
    (read : codePiece c (front ++ text) = .ok found) (length : found.more = front.length) :
    codePiece c (front ++ other) = .ok found := by
  have whole := fades.append front
  have empty : text = [] → other = [] := by
    rintro rfl
    exact fades.nil
  have angle : other.head? = some '>' → text.head? = some '>' := fades.head?_eq (by decide)
  have sameHead : front ≠ [] → (front ++ other).head? = (front ++ text).head? := by
    intro nonempty
    cases front with
    | nil => exact absurd rfl nonempty
    | cons d front => rfl
  have longer : ∀ n, found.more = n + 1 → front ≠ [] := by
    rintro n more rfl
    simp [more] at length
  have reads := codePiece_reads c (front ++ text)
  rw [read] at reads
  apply CodePiece.eq
  cases reads with
  | space space => exact .space space
  | closeTag mark next => exact .closeTag mark ((sameHead (longer 0 rfl)).trans next)
  | nullsafe mark next =>
      match front, length with
      | [d, e], _ => exact .nullsafe mark next
  | arrow mark next => exact .arrow mark ((sameHead (longer 0 rfl)).trans next)
  | doubleColon mark next => exact .doubleColon mark ((sameHead (longer 0 rfl)).trans next)
  | attributes mark next =>
      match front, length with
      | [], _ => exact .attributes mark ((bracket rfl).trans next)
  | lineComment opens =>
      have extent := lineComment_local empty angle (lineBreak _ rfl) (closeTag _ rfl) length
      rw [show lineComment (front ++ text) = lineComment (front ++ other) from
        length.trans extent.symm]
      refine .lineComment (opens.imp (fun slashes => ?_) fun hash => ?_)
      · have nonempty : front ≠ [] := by
          rintro rfl
          obtain ⟨rest, equality⟩ := List.head?_eq_some_iff.mp slashes.2
          rw [equality] at length
          simp [Piece.more, Lexeme.lineComment] at length
        exact ⟨slashes.1, (sameHead nonempty).trans slashes.2⟩
      · exact ⟨hash.1, fun head => hash.2 (whole.head?_eq (by decide) head)⟩
  | @blockComment more mark next closed =>
      cases front with
      | nil => simp [Piece.more] at length
      | cons d front =>
          obtain rfl : more = front.length := by simpa [Piece.more] using length
          exact .blockComment mark next (blockComment_local other closed)
  | @quoted quote more mark extent =>
      obtain rfl : more = front.length := length
      have quoted := CodePiece.quoted mark (quotedExtent_local other extent)
      rwa [List.take_left] at quoted ⊢
  | @heredoc more mark marks extent =>
      -- The mark takes two characters behind the first one.
      rcases front with - | ⟨d, - | ⟨e, front⟩⟩
      · simp [Piece.more] at length
      · simp [Piece.more] at length
      obtain rfl : more = front.length := by simpa [Piece.more] using length
      exact .heredoc mark marks
        (heredocExtent_local (fades.endsOrStarts isNameChar_of_isSpace) extent)
  | variableName mark starts =>
      have nonempty : front ≠ [] := by
        rintro rfl
        cases text with
        | nil => simp [startsVariable] at starts
        | cons d text =>
            simp only [startsVariable, List.nil_append, List.head?_cons, Option.any_some,
              Bool.and_eq_true] at starts
            simp [Piece.more, isNameChar_of_isNameStart starts.1] at length
      obtain ⟨-, run⟩ := takeWhile_local (fades.stops isNameChar_of_isSpace) length
      have sameStart : startsVariable (front ++ other) = startsVariable (front ++ text) := by
        rw [startsVariable, startsVariable, sameHead nonempty]
      have variableName := CodePiece.variableName mark (sameStart.trans starts)
      rwa [run, ← length] at variableName
  | number digit =>
      obtain ⟨-, run⟩ := takeWhile_local (fades.stops isNumberChar_of_isSpace) length
      have number := @CodePiece.number c (front ++ other) digit
      rwa [run, ← length] at number
  | name named =>
      obtain ⟨same, run⟩ := takeWhile_local (fades.stops isNameChar_of_isSpace) length
      rw [same]
      have name := @CodePiece.name c (front ++ other) named
      rwa [run] at name
  | mark alone => exact .mark (alone.of_fades whole)

theorem length_of_take_two {text : List Char} {c d : Char} (marks : text.take 2 = [c, d]) :
    2 ≤ text.length := by
  have length := congrArg List.length marks
  rw [List.length_take] at length
  simp only [List.length_cons, List.length_nil] at length
  omega

theorem length_of_head? {text : List Char} {c : Char} (head : text.head? = some c) :
    1 ≤ text.length := by
  obtain ⟨rest, rfl⟩ := List.head?_eq_some_iff.mp head
  simp

theorem codePiece_le {c : Char} {rest : List Char} {found : Piece}
    (read : codePiece c rest = .ok found) : found.more ≤ rest.length := by
  have reads := codePiece_reads c rest
  rw [read] at reads
  cases reads with
  | space | attributes | mark => exact Nat.zero_le _
  | closeTag mark next | arrow mark next | doubleColon mark next => exact length_of_head? next
  | nullsafe mark next => exact length_of_take_two next
  | lineComment => exact lineComment_le rest
  | blockComment mark next closed =>
      have bounds := blockComment_bounds closed
      rw [List.length_tail] at bounds
      simp only [Piece.more]
      omega
  | quoted mark extent => exact quotedExtent_le extent
  | heredoc mark next extent =>
      have bound := heredocExtent_le extent
      have length := length_of_take_two next
      rw [List.length_drop] at bound
      simp only [Piece.more]
      omega
  | variableName | number | name => exact (List.takeWhile_prefix _).length_le

theorem length_of_startsWithIgnoringCase {word rest : List Char}
    (starts : startsWithIgnoringCase word rest = true) : word.length ≤ rest.length := by
  simp only [startsWithIgnoringCase, Text.sameIgnoringCase, beq_iff_eq] at starts
  have length := congrArg List.length starts
  simp only [Text.lowerAscii, List.length_map, List.length_take] at length
  omega

theorem startsWithIgnoringCase_append {word front : List Char} (text other : List Char)
    (length : word.length ≤ front.length) :
    startsWithIgnoringCase word (front ++ text) = startsWithIgnoringCase word (front ++ other) := by
  unfold startsWithIgnoringCase
  rw [List.take_append_of_le_length length, List.take_append_of_le_length length]

theorem startsWithIgnoringCase_cons {c d : Char} {word rest : List Char}
    (starts : startsWithIgnoringCase (c :: word) (d :: rest) = true) : d.toLower = c.toLower := by
  simp only [startsWithIgnoringCase, Text.sameIgnoringCase, beq_iff_eq, Text.lowerAscii,
    List.length_cons, List.take_succ_cons, List.map_cons, List.cons.injEq] at starts
  exact starts.1.symm

inductive OpenTag : List Char → Nat → Prop where
  | php {rest : List Char} (word : startsWithIgnoringCase ['p', 'h', 'p'] rest = true)
      (stop : endsOrStarts isSpace (rest.drop 3) = true) : OpenTag ('?' :: rest) 4
  | hack {rest : List Char} (word : startsWithIgnoringCase ['h', 'h'] rest = true)
      (stop : endsOrStarts (!isNameChar ·) (rest.drop 2) = true) : OpenTag ('?' :: rest) 3
  | echo {rest : List Char} (next : rest.head? = some '=') : OpenTag ('?' :: rest) 2
  | short {rest : List Char} (stop : endsOrStarts isSpace rest = true) : OpenTag ('?' :: rest) 1

theorem openTag?_eq_some_iff {text : List Char} {more : Nat} :
    openTag? text = some more ↔ OpenTag text more := by
  constructor
  · intro found
    unfold openTag? at found
    split at found
    case h_2 => simp at found
    case h_1 rest =>
        by_cases php : startsWithIgnoringCase ['p', 'h', 'p'] rest ∧ endsOrStarts isSpace (rest.drop 3)
        · rw [if_pos php] at found
          cases found
          exact .php php.1 php.2
        rw [if_neg php] at found
        by_cases hack : startsWithIgnoringCase ['h', 'h'] rest ∧
            endsOrStarts (!isNameChar ·) (rest.drop 2)
        · rw [if_pos hack] at found
          cases found
          exact .hack hack.1 hack.2
        rw [if_neg hack] at found
        by_cases echo : rest.head? = some '='
        · rw [if_pos echo] at found
          cases found
          exact .echo echo
        rw [if_neg echo] at found
        by_cases short : endsOrStarts isSpace rest
        · rw [if_pos short] at found
          cases found
          exact .short short
        · rw [if_neg short] at found
          simp at found
  · intro tag
    cases tag with
    | php word stop => exact if_pos ⟨word, stop⟩
    | @hack rest word stop =>
        cases rest with
        | nil => exact absurd (length_of_startsWithIgnoringCase word) (by simp)
        | cons c rest =>
            have letter := startsWithIgnoringCase_cons word
            have notPhp : ¬ startsWithIgnoringCase ['p', 'h', 'p'] (c :: rest) = true := by
              intro php
              rw [startsWithIgnoringCase_cons php] at letter
              exact absurd letter (by decide)
            exact (if_neg fun both => notPhp both.1).trans (if_pos ⟨word, stop⟩)
    | @echo rest next =>
        obtain ⟨rest, rfl⟩ := List.head?_eq_some_iff.mp next
        have notWord : ∀ letter word, Char.toLower '=' ≠ Char.toLower letter →
            ¬ startsWithIgnoringCase (letter :: word) ('=' :: rest) = true :=
          fun letter word differ starts => differ (startsWithIgnoringCase_cons starts)
        simp [openTag?, notWord 'p' _ (by decide), notWord 'h' _ (by decide)]
    | @short rest stop =>
        cases rest with
        | nil => simp [openTag?, startsWithIgnoringCase, Text.sameIgnoringCase, Text.lowerAscii, stop]
        | cons c rest =>
            have space : isSpace c = true := stop
            rcases isSpace_cases space with rfl | rfl | rfl | rfl | rfl <;>
              simp [openTag?, startsWithIgnoringCase, Text.sameIgnoringCase, Text.lowerAscii, stop]

theorem OpenTag.le {text : List Char} {more : Nat} (tag : OpenTag text more) :
    more ≤ text.length := by
  cases tag with
  | php word stop => simpa using length_of_startsWithIgnoringCase word
  | hack word stop => simpa using length_of_startsWithIgnoringCase word
  | echo next => simpa using length_of_head? next
  | short stop => simp

theorem OpenTag.fades {front text other : List Char} (fades : Fades text other)
    (tag : OpenTag (front ++ text) front.length) : OpenTag (front ++ other) front.length := by
  generalize whole : front ++ text = start at tag
  generalize length : front.length = more at tag ⊢
  cases tag with
  | @php rest word stop =>
      match front, length with
      | [mark, a, b, c], _ =>
          cases whole
          exact .php word (fades.endsOrStarts_isSpace stop)
  | hack word stop =>
      match front, length with
      | [mark, a, b], _ =>
          cases whole
          exact .hack word (fades.endsOrStarts isNameChar_of_isSpace stop)
  | echo next =>
      match front, length with
      | [mark, a], _ =>
          cases whole
          exact .echo next
  | short stop =>
      match front, length with
      | [mark], _ =>
          cases whole
          exact .short (fades.endsOrStarts_isSpace stop)

theorem length_of_startsWith_before_tag {word front text : List Char}
    (plain : '<' ∉ Text.lowerAscii word)
    (starts : startsWithIgnoringCase word (front ++ '<' :: text) = true) :
    word.length ≤ front.length := by
  induction word generalizing front with
  | nil => simp
  | cons c word inductionHypothesis =>
      simp only [Text.lowerAscii, List.map_cons, List.mem_cons, not_or] at plain
      cases front with
      | nil => exact absurd (startsWithIgnoringCase_cons starts) plain.1
      | cons d front =>
          have later : startsWithIgnoringCase word (front ++ '<' :: text) = true := by
            simp only [startsWithIgnoringCase, Text.sameIgnoringCase, beq_iff_eq, Text.lowerAscii,
              List.length_cons, List.cons_append, List.take_succ_cons, List.map_cons,
              List.cons.injEq] at starts ⊢
            exact starts.2
          simpa using inductionHypothesis plain.2 later

/-- Whether a tag opens is decided in front of the next mark of a tag. -/
theorem OpenTag.before_tag {front text : List Char} {more : Nat} (other : List Char)
    (tag : OpenTag (front ++ '<' :: text) more) : OpenTag (front ++ '<' :: other) more := by
  cases front with
  | nil => cases tag
  | cons mark front =>
      have sameStop : ∀ p n, n ≤ front.length →
          endsOrStarts p ((front ++ '<' :: text).drop n) =
            endsOrStarts p ((front ++ '<' :: other).drop n) := by
        intro p n inFront
        unfold endsOrStarts
        rw [List.drop_append_of_le_length inFront, List.drop_append_of_le_length inFront]
        cases front.drop n <;> rfl
      have sameHead : (front ++ '<' :: other).head? = (front ++ '<' :: text).head? := by
        cases front <;> rfl
      cases tag with
      | php word stop =>
          have length := length_of_startsWith_before_tag (by decide) word
          exact .php ((startsWithIgnoringCase_append _ _ length).trans word)
            ((sameStop _ _ length).symm.trans stop)
      | hack word stop =>
          have length := length_of_startsWith_before_tag (by decide) word
          exact .hack ((startsWithIgnoringCase_append _ _ length).trans word)
            ((sameStop _ _ length).symm.trans stop)
      | echo next => exact .echo (sameHead.trans next)
      | short stop => exact .short ((sameStop _ 0 (Nat.zero_le _)).symm.trans stop)

theorem htmlPiece_before_tag {c : Char} {front text other : List Char}
    (gap : htmlPiece c (front ++ '<' :: text) = .gap 0) :
    htmlPiece c (front ++ '<' :: other) = .gap 0 := by
  unfold htmlPiece at gap ⊢
  by_cases mark : c = '<'
  · rw [if_pos mark] at gap ⊢
    cases found : openTag? (front ++ '<' :: other) with
    | none => rfl
    | some more =>
        have tag := (openTag?_eq_some_iff.mp found).before_tag text
        rw [openTag?_eq_some_iff.mpr tag] at gap
        exact absurd gap (by simp)
  · rw [if_neg mark]

theorem htmlPiece_cases (c : Char) (rest : List Char) :
    htmlPiece c rest = .gap 0 ∨
      ∃ more, c = '<' ∧ OpenTag rest more ∧ htmlPiece c rest = .lexeme .openTag more := by
  unfold htmlPiece
  by_cases mark : c = '<'
  · rw [if_pos mark]
    cases found : openTag? rest with
    | none => exact .inl rfl
    | some more => exact .inr ⟨more, mark, openTag?_eq_some_iff.mp found, rfl⟩
  · rw [if_neg mark]
    exact .inl rfl

theorem htmlPiece_gap {c : Char} {front text : List Char}
    (gap : htmlPiece c (front ++ text) = .gap front.length) : front = [] := by
  rcases htmlPiece_cases c (front ++ text) with one | ⟨more, -, -, found⟩
  · exact List.eq_nil_of_length_eq_zero (Piece.gap.inj (gap.symm.trans one))
  · exact absurd (gap.symm.trans found) (by simp)

theorem htmlPiece_openTag_local {c : Char} {front text other : List Char} (fades : Fades text other)
    (read : htmlPiece c (front ++ text) = .lexeme .openTag front.length) :
    htmlPiece c (front ++ other) = .lexeme .openTag front.length := by
  rcases htmlPiece_cases c (front ++ text) with gap | ⟨more, rfl, tag, found⟩
  · exact absurd (gap.symm.trans read) (by simp)
  · obtain rfl : more = front.length := by
      simpa using found.symm.trans read
    unfold htmlPiece
    rw [if_pos rfl, openTag?_eq_some_iff.mpr (tag.fades fades)]

end AutoloadIndex.Lexeme
