import AutoloadIndex.Lexeme.Lexer

set_option autoImplicit false

/-!
What the extent of strings, comments and heredocs depends on. A text may fade: behind some place it
is replaced by white space. What ends in front of that place ends where it did, except for a line
comment, which goes on to the end of its line.
-/

namespace AutoloadIndex.Lexeme

/-- Another text that is the same up to a place where it has white space. -/
def Fades (text other : List Char) : Prop :=
  other = text ∨ ∃ front c back space behind,
    text = front ++ c :: back ∧ other = front ++ space :: behind ∧ isSpace space = true

namespace Fades

theorem append (front : List Char) {text other : List Char} (fades : Fades text other) :
    Fades (front ++ text) (front ++ other) := by
  rcases fades with rfl | ⟨middle, c, back, space, behind, rfl, rfl, isSpace⟩
  · exact .inl rfl
  · exact .inr ⟨front ++ middle, c, back, space, behind, by simp, by simp, isSpace⟩

theorem nil {other : List Char} (fades : Fades [] other) : other = [] := by
  rcases fades with rfl | ⟨front, c, back, space, behind, empty, -, -⟩
  · rfl
  · exact absurd empty (by simp)

theorem head? {text other : List Char} (fades : Fades text other) :
    other.head? = text.head? ∨ ∃ space, other.head? = some space ∧ isSpace space = true := by
  rcases fades with rfl | ⟨front, c, back, space, behind, rfl, rfl, isSpace⟩
  · exact .inl rfl
  · cases front with
    | nil => exact .inr ⟨space, rfl, isSpace⟩
    | cons first front => exact .inl rfl

theorem head?_eq {text other : List Char} (fades : Fades text other) {c : Char}
    (visible : isSpace c = false) (found : other.head? = some c) : text.head? = some c := by
  rcases fades.head? with same | ⟨space, head, isSpace⟩
  · rw [← same, found]
  · rw [found] at head
    cases head
    rw [isSpace] at visible
    exact absurd visible (by simp)

theorem tail {text other : List Char} (fades : Fades text other) {c : Char} {rest : List Char}
    (visible : isSpace c = false) (found : other = c :: rest) :
    ∃ back, text = c :: back ∧ Fades back rest := by
  rcases fades with rfl | ⟨front, d, back, space, behind, rfl, rfl, isSpace⟩
  · exact ⟨rest, found, .inl rfl⟩
  · cases front with
    | nil =>
        cases found
        rw [isSpace] at visible
        exact absurd visible (by simp)
    | cons first front =>
        cases found
        exact ⟨front ++ d :: back, rfl, .inr ⟨front, d, back, space, behind, rfl, rfl, isSpace⟩⟩

theorem take_two_eq {text other : List Char} (fades : Fades text other) {c d : Char}
    (visible : isSpace c = false) (alsoVisible : isSpace d = false)
    (found : other.take 2 = [c, d]) : text.take 2 = [c, d] := by
  match other, found with
  | first :: second :: rest, found =>
      simp only [List.take_succ_cons, List.take_zero, List.cons.injEq, and_true] at found
      obtain ⟨rfl, rfl⟩ := found
      obtain ⟨back, rfl, fadesBack⟩ := fades.tail visible rfl
      obtain ⟨_, rfl, -⟩ := fadesBack.tail alsoVisible rfl
      simp

theorem stops {text other : List Char} (fades : Fades text other) {p : Char → Bool}
    (visible : ∀ c, isSpace c = true → p c = false) (stop : text.head?.any p = false) :
    other.head?.any p = false := by
  rcases fades.head? with same | ⟨space, head, isSpace⟩
  · rw [same, stop]
  · rw [head]
    exact visible space isSpace

theorem endsOrStarts {text other : List Char} (fades : Fades text other) {p : Char → Bool}
    (visible : ∀ c, isSpace c = true → p c = false) (stop : endsOrStarts (!p ·) text = true) :
    endsOrStarts (!p ·) other = true := by
  unfold Lexeme.endsOrStarts at stop ⊢
  rcases fades.head? with same | ⟨space, head, isSpace⟩
  · rw [same, stop]
  · simp [head, visible space isSpace]

theorem endsOrStarts_isSpace {text other : List Char} (fades : Fades text other)
    (stop : Lexeme.endsOrStarts isSpace text = true) : Lexeme.endsOrStarts isSpace other = true := by
  unfold Lexeme.endsOrStarts at stop ⊢
  rcases fades.head? with same | ⟨space, head, isSpace⟩
  · rw [same, stop]
  · simp [head, isSpace]

end Fades

theorem isSpace_cases {c : Char} (space : isSpace c = true) :
    c = ' ' ∨ c = '\t' ∨ c = '\n' ∨ c = '\x0c' ∨ c = '\r' := by
  simpa [isSpace, or_assoc] using space

theorem isNameChar_of_isSpace (c : Char) (space : isSpace c = true) : isNameChar c = false := by
  rcases isSpace_cases space with rfl | rfl | rfl | rfl | rfl <;> decide

theorem isNumberChar_of_isSpace (c : Char) (space : isSpace c = true) :
    isNumberChar c = false := by
  rcases isSpace_cases space with rfl | rfl | rfl | rfl | rfl <;> decide

theorem takeWhile_local {p : Char → Bool} {front text other : List Char}
    (stops : text.head?.any p = false → other.head?.any p = false)
    (run : ((front ++ text).takeWhile p).length = front.length) :
    (front ++ text).takeWhile p = front ∧ (front ++ other).takeWhile p = front := by
  induction front with
  | nil =>
      have stop : text.head?.any p = false := by
        cases text with
        | nil => rfl
        | cons c rest =>
            by_cases inClass : p c
            · simp [inClass] at run
            · simpa using inClass
      have otherStop := stops stop
      constructor
      · cases text <;> simp_all
      · cases other <;> simp_all
  | cons c rest inductionHypothesis =>
      by_cases inClass : p c
      · simp only [List.cons_append, List.takeWhile_cons, inClass, if_true, List.length_cons,
          Nat.add_right_cancel_iff] at run ⊢
        obtain ⟨same, other⟩ := inductionHypothesis run
        exact ⟨by rw [same], by rw [other]⟩
      · simp [inClass] at run

/-- What one character does inside of a string: the string ends with it or goes on behind one or two
characters. At most one further character decides. -/
inductive Move (top : Frame) (below : List Frame) (place : Nat) (c : Char) : List Char → Prop where
  | fails {rest : List Char} (fault : LexFault × Nat)
      (equation : literalEnd top below place (c :: rest) = .error fault) : Move top below place c rest
  | ends {rest : List Char}
      (equation : ∀ other, literalEnd top below place (c :: other) = .ok (place + 1)) :
      Move top below place c rest
  | one {rest : List Char} (inner : Frame) (outer : List Frame)
      (equation : ∀ other, other.head? = rest.head? → literalEnd top below place (c :: other) =
        literalEnd inner outer (place + 1) other) : Move top below place c rest
  | two {rest more : List Char} {d : Char} (next : rest = d :: more) (inner : Frame)
      (outer : List Frame) (equation : ∀ other, literalEnd top below place (c :: d :: other) =
        literalEnd inner outer (place + 2) other) : Move top below place c rest

theorem move_quoted (quote : Quote) (opened : Nat) (below : List Frame) (place : Nat) (c : Char)
    (rest : List Char) : Move (.quoted quote opened) below place c rest := by
  by_cases escape : c = '\\'
  · cases rest with
    | nil =>
        refine .fails (Frame.fault (.quoted quote opened)) ?_
        simp [literalEnd, escape]
    | cons d rest =>
        refine .two rfl (.quoted quote opened) below ?_
        intro other
        simp [literalEnd, escape]
  by_cases closing : c = quote.mark
  · cases below with
    | nil =>
        refine .ends ?_
        intro other
        rw [literalEnd.eq_def]
        simp only [if_neg escape, if_pos closing]
    | cons outer others =>
        refine .one outer others ?_
        intro other _
        rw [literalEnd.eq_def]
        simp only [if_neg escape, if_pos closing]
  by_cases braced : quote.interpolates ∧ c = '{' ∧ rest.head? = some '$'
  · refine .one (.braces 1 place) (.quoted quote opened :: below) ?_
    intro other head
    rw [← head] at braced
    rw [literalEnd.eq_def]
    simp only [if_neg escape, if_neg closing, if_pos braced]
  by_cases dollar : quote.interpolates ∧ c = '$'
  · have notBraced : ∀ other : List Char,
        ¬ (quote.interpolates ∧ c = '{' ∧ other.head? = some '$') := by
      rintro other ⟨-, brace, -⟩
      exact absurd (dollar.2.symm.trans brace) (by decide)
    cases rest with
    | nil =>
        refine .fails (Frame.fault (.quoted quote opened)) ?_
        rw [literalEnd.eq_def]
        simp only [if_neg escape, if_neg closing, if_neg braced, if_pos dollar]
    | cons d rest =>
        by_cases opening : d = '{'
        · refine .two rfl (.braces 1 (place + 1)) (.quoted quote opened :: below) ?_
          intro other
          rw [literalEnd.eq_def]
          simp only [if_neg escape, if_neg closing, if_neg (notBraced _), if_pos dollar,
            if_pos opening]
        · refine .one (.quoted quote opened) below ?_
          rintro (_ | ⟨e, other⟩) head
          · simp at head
          · cases head
            rw [literalEnd.eq_def]
            simp only [if_neg escape, if_neg closing, if_neg (notBraced _), if_pos dollar,
              if_neg opening]
  refine .one (.quoted quote opened) below ?_
  intro other head
  rw [← head] at braced
  rw [literalEnd.eq_def]
  simp only [if_neg escape, if_neg closing, if_neg braced, if_neg dollar]

theorem move_braces (depth opened : Nat) (below : List Frame) (place : Nat) (c : Char)
    (rest : List Char) : Move (.braces depth opened) below place c rest := by
  by_cases opening : c = '{'
  · refine .one (.braces (depth + 1) opened) below ?_
    simp [literalEnd, opening]
  by_cases closing : c = '}'
  · by_cases deep : 1 < depth
    · refine .one (.braces (depth - 1) opened) below ?_
      simp [literalEnd, closing, deep]
    · cases below with
      | nil =>
          refine .ends ?_
          simp [literalEnd, closing, deep]
      | cons outer others =>
          refine .one outer others ?_
          simp [literalEnd, closing, deep]
  by_cases single : c = '\''
  · refine .one (.quoted .single place) (.braces depth opened :: below) ?_
    simp [literalEnd, single]
  by_cases double : c = '"'
  · refine .one (.quoted .double place) (.braces depth opened :: below) ?_
    simp [literalEnd, double]
  refine .one (.braces depth opened) below ?_
  simp [literalEnd, opening, closing, single, double]

theorem move (top : Frame) (below : List Frame) (place : Nat) (c : Char) (rest : List Char) :
    Move top below place c rest := by
  cases top with
  | quoted quote opened => exact move_quoted quote opened below place c rest
  | braces depth opened => exact move_braces depth opened below place c rest

theorem literalEnd_bounds {top : Frame} {below : List Frame} {place stop : Nat} {text : List Char}
    (ended : literalEnd top below place text = .ok stop) :
    place < stop ∧ stop ≤ place + text.length := by
  fun_induction literalEnd top below place text <;> grind

/-- The end of a string does not depend on the text behind it. -/
theorem literalEnd_local {top : Frame} {below : List Frame} {place stop : Nat}
    {front text : List Char} (other : List Char)
    (ended : literalEnd top below place (front ++ text) = .ok stop)
    (length : stop = place + front.length) :
    literalEnd top below place (front ++ other) = .ok stop := by
  induction size : front.length using Nat.strongRecOn generalizing top below place front with
  | ind _ inductionHypothesis =>
      subst size
      have bounds := literalEnd_bounds ended
      cases front with
      | nil => exact absurd bounds.1 (by simp [length])
      | cons c front =>
          rw [List.length_cons] at length
          rw [List.cons_append] at ended ⊢
          cases move top below place c (front ++ text) with
          | fails fault equation =>
              rw [equation] at ended
              exact absurd ended (by simp)
          | ends equation =>
              rw [equation] at ended ⊢
              exact ended
          | one inner outer equation =>
              rw [equation _ rfl] at ended
              have later := literalEnd_bounds ended
              have head : (front ++ other).head? = (front ++ text).head? := by
                cases front with
                | nil => exact absurd later.1 (by simp [length])
                | cons d front => rfl
              rw [equation _ head]
              exact inductionHypothesis front.length (by simp) ended (by omega) rfl
          | two next inner outer equation =>
              rw [next, equation] at ended
              have later := literalEnd_bounds ended
              cases front with
              | nil => exact absurd later.1 (by simp [length])
              | cons d front =>
                  obtain ⟨rfl, rfl⟩ := List.cons.inj next
                  rw [List.cons_append, equation]
                  rw [List.length_cons] at length
                  have shorter : front.length < (c :: d :: front).length := by
                    simp only [List.length_cons]
                    omega
                  exact inductionHypothesis front.length shorter ended (by omega) rfl

theorem quotedExtent_local {quote : Quote} {front text : List Char} (other : List Char)
    (found : quotedExtent quote (front ++ text) = .ok front.length) :
    quotedExtent quote (front ++ other) = .ok front.length := by
  unfold quotedExtent at found ⊢
  cases ended : literalEnd (.quoted quote 0) [] 1 (front ++ text) with
  | error fault =>
      rw [ended] at found
      exact absurd found (by simp [Except.map])
  | ok stop =>
      have bounds := literalEnd_bounds ended
      rw [ended] at found
      have length : stop - 1 = front.length := Except.ok.inj found
      rw [literalEnd_local other ended (by omega)]
      exact found

theorem quotedExtent_le {quote : Quote} {text : List Char} {more : Nat}
    (found : quotedExtent quote text = .ok more) : more ≤ text.length := by
  unfold quotedExtent at found
  cases ended : literalEnd (.quoted quote 0) [] 1 text with
  | error fault =>
      rw [ended] at found
      exact absurd found (by simp [Except.map])
  | ok stop =>
      have bounds := literalEnd_bounds ended
      rw [ended] at found
      have length : stop - 1 = more := Except.ok.inj found
      omega

theorem blockComment_bounds {text : List Char} {more : Nat} (found : blockComment text = some more) :
    1 < more ∧ more ≤ text.length := by
  induction text generalizing more with
  | nil => simp [blockComment] at found
  | cons c rest inductionHypothesis =>
      rw [blockComment] at found
      split at found
      case isTrue closing =>
          cases found
          cases rest with
          | nil => simp at closing
          | cons d rest => simp
      case isFalse =>
          obtain ⟨later, inRest, rfl⟩ := Option.map_eq_some_iff.mp found
          have bounds := inductionHypothesis inRest
          simp only [List.length_cons]
          omega

theorem blockComment_local {front text : List Char} (other : List Char)
    (found : blockComment (front ++ text) = some front.length) :
    blockComment (front ++ other) = some front.length := by
  have bounds := blockComment_bounds found
  induction front with
  | nil => exact absurd bounds.1 (by simp)
  | cons c front inductionHypothesis =>
      have head : (front ++ other).head? = (front ++ text).head? := by
        cases front with
        | nil => exact absurd bounds.1 (by simp)
        | cons d front => rfl
      rw [List.cons_append, blockComment] at found ⊢
      rw [head]
      split at found
      case isTrue closing => rw [if_pos closing, found]
      case isFalse notClosing =>
          obtain ⟨later, inRest, length⟩ := Option.map_eq_some_iff.mp found
          obtain rfl : later = front.length := by simpa using length
          rw [if_neg notClosing, inductionHypothesis inRest (blockComment_bounds inRest)]
          rfl

theorem lineComment_le (text : List Char) : lineComment text ≤ text.length := by
  induction text with
  | nil => simp [lineComment]
  | cons c rest inductionHypothesis =>
      rw [lineComment]
      split
      · simp
      · simpa using inductionHypothesis

theorem lineComment_eq_zero {text : List Char} (found : lineComment text = 0) :
    text = [] ∨ text.head? = some '\n' ∨ text.take 2 = ['?', '>'] := by
  cases text with
  | nil => exact .inl rfl
  | cons c rest =>
      rw [lineComment] at found
      split at found
      case isTrue ends =>
          rcases ends with rfl | ⟨rfl, head⟩
          · exact .inr (.inl rfl)
          · obtain ⟨back, rfl⟩ := List.head?_eq_some_iff.mp head
            exact .inr (.inr rfl)
      case isFalse => exact absurd found (by simp)

theorem lineComment_local {front text other : List Char} (ends : text = [] → other = [])
    (angle : other.head? = some '>' → text.head? = some '>')
    (lineBreak : text.head? = some '\n' → other.head? = some '\n')
    (closeTag : text.take 2 = ['?', '>'] → other.take 2 = ['?', '>'])
    (found : lineComment (front ++ text) = front.length) :
    lineComment (front ++ other) = front.length := by
  induction front with
  | nil =>
      rcases lineComment_eq_zero found with rfl | starts | starts
      · rw [ends rfl]
        rfl
      · obtain ⟨rest, rfl⟩ := List.head?_eq_some_iff.mp (lineBreak starts)
        simp [lineComment]
      · match other, closeTag starts with
        | first :: second :: rest, marks =>
            simp only [List.take_succ_cons, List.take_zero, List.cons.injEq, and_true] at marks
            simp [lineComment, marks]
  | cons c front inductionHypothesis =>
      rw [List.cons_append, lineComment] at found ⊢
      split at found
      case isTrue => simp at found
      case isFalse goesOn =>
          have alsoGoesOn : ¬ (c = '\n' ∨ c = '?' ∧ (front ++ other).head? = some '>') := by
            rintro (lineBreak | ⟨mark, head⟩)
            · exact goesOn (.inl lineBreak)
            · refine goesOn (.inr ⟨mark, ?_⟩)
              cases front with
              | nil => exact angle head
              | cons d front => exact head
          rw [if_neg alsoGoesOn, inductionHypothesis (by simpa using found)]
          rfl

section Line

variable {line : List Char} (oneLine : '\n' ∉ line) (text other : List Char)

theorem head?_line (line text other : List Char) :
    (line ++ '\n' :: text).head? = (line ++ '\n' :: other).head? := by
  cases line <;> rfl

theorem drop_line (p : Char → Bool) (line text : List Char) :
    (line ++ '\n' :: text).drop (line.takeWhile p).length =
      line.drop (line.takeWhile p).length ++ '\n' :: text :=
  List.drop_append_of_le_length (List.takeWhile_prefix p).length_le

include oneLine

theorem takeWhile_line {p : Char → Bool} (stops : p '\n' = false) :
    (line ++ '\n' :: text).takeWhile p = line.takeWhile p := by
  induction line with
  | nil => simp [stops]
  | cons c rest inductionHypothesis =>
      have inRest : '\n' ∉ rest := fun membership => oneLine (List.mem_cons_of_mem c membership)
      rw [List.cons_append, List.takeWhile_cons, List.takeWhile_cons, inductionHypothesis inRest]

theorem isPrefixOf_line (label : List Char) (labelLine : '\n' ∉ label) :
    label.isPrefixOf (line ++ '\n' :: text) = label.isPrefixOf line := by
  induction label generalizing line with
  | nil => simp
  | cons d label inductionHypothesis =>
      have inLabel : '\n' ∉ label := fun membership => labelLine (List.mem_cons_of_mem d membership)
      cases line with
      | nil =>
          have differ : d ≠ '\n' := by
            rintro rfl
            exact labelLine List.mem_cons_self
          simp [List.isPrefixOf, differ]
      | cons c rest =>
          have inRest : '\n' ∉ rest := fun membership => oneLine (List.mem_cons_of_mem c membership)
          simp only [List.cons_append, List.isPrefixOf]
          rw [inductionHypothesis inRest inLabel]

/-- Whether a line closes a heredoc depends on that line alone. -/
theorem closingLine_line {label : List Char} (labelLine : '\n' ∉ label) :
    closingLine label (line ++ '\n' :: text) = closingLine label (line ++ '\n' :: other) := by
  have indented : isIndent '\n' = false := by decide
  have oneRest : '\n' ∉ line.drop (line.takeWhile isIndent).length :=
    fun membership => oneLine (List.mem_of_mem_drop membership)
  unfold closingLine
  simp only [takeWhile_line oneLine _ indented, drop_line,
    isPrefixOf_line oneRest _ label labelLine]
  by_cases starts : label.isPrefixOf (line.drop (line.takeWhile isIndent).length)
  · have length := (List.isPrefixOf_iff_prefix.mp starts).length_le
    unfold endsOrStarts
    rw [List.drop_append_of_le_length length, List.drop_append_of_le_length length,
      head?_line _ text other]
  · simp [starts]

theorem openingLabel_line :
    openingLabel (line ++ '\n' :: text) = openingLabel (line ++ '\n' :: other) := by
  have indented : isIndent '\n' = false := by decide
  have named : isNameChar '\n' = false := by decide
  have oneRest : '\n' ∉ line.drop (line.takeWhile isIndent).length :=
    fun membership => oneLine (List.mem_of_mem_drop membership)
  unfold openingLabel
  simp only [takeWhile_line oneLine _ indented, drop_line]
  generalize line.drop (line.takeWhile isIndent).length = rest at oneRest ⊢
  cases rest with
  | nil => simp [named]
  | cons c rest =>
      have inRest : '\n' ∉ rest := fun membership => oneRest (List.mem_cons_of_mem c membership)
      by_cases quote : (c == '\'' || c == '"') = true
      · simp only [List.cons_append, List.head?_cons, Option.filter_some, quote, if_true,
          Option.isSome_some, List.tail_cons, takeWhile_line inRest _ named, drop_line]
        rw [head?_line _ text other]
      · have noQuote : (some c).filter (fun c => c == '\'' || c == '"') = none := by
          simpa using quote
        simp only [List.cons_append, List.head?_cons, noQuote, Option.isSome_none,
          Bool.false_eq_true, if_false]
        rw [← List.cons_append, ← List.cons_append, takeWhile_line oneRest _ named,
          takeWhile_line oneRest _ named]

end Line

/-- A label of a heredoc: a word, so it has neither indentation nor line breaks. -/
structure IsLabel (label : List Char) : Prop where
  nonempty : label ≠ []
  named : ∀ c ∈ label, isNameChar c = true

theorem IsLabel.oneLine {label : List Char} (isLabel : IsLabel label) : '\n' ∉ label :=
  fun membership => absurd (isLabel.named _ membership) (by decide)

theorem not_isIndent_of_isNameChar {c : Char} (named : isNameChar c = true) :
    isIndent c = false := by
  rw [Bool.eq_false_iff]
  intro indent
  simp only [isIndent, Bool.or_eq_true, beq_iff_eq] at indent
  rcases indent with rfl | rfl <;> exact absurd named (by decide)

theorem IsLabel.stopsIndent {label : List Char} (isLabel : IsLabel label) (text : List Char) :
    endsOrStarts (!isIndent ·) (label ++ text) = true := by
  cases label with
  | nil => exact absurd rfl isLabel.nonempty
  | cons c label =>
      have visible := not_isIndent_of_isNameChar (isLabel.named c List.mem_cons_self)
      simp [endsOrStarts, visible]

theorem takeWhile_run {p : Char → Bool} {run behind : List Char}
    (inClass : ∀ c ∈ run, p c = true) (ends : endsOrStarts (!p ·) behind = true) :
    (run ++ behind).takeWhile p = run := by
  rw [List.takeWhile_append_of_pos inClass]
  cases behind with
  | nil => simp
  | cons c rest =>
      have outside : p c = false := by simpa [endsOrStarts] using ends
      simp [outside]

theorem openingLabel_isLabel {text label : List Char} {head : Nat}
    (opened : openingLabel text = .ok (label, head)) : IsLabel label := by
  unfold openingLabel at opened
  dsimp only at opened
  generalize List.drop _ _ = rest at opened
  generalize Option.filter _ _ = quote at opened
  generalize (if quote.isSome = true then rest.tail else rest) = named at opened
  split at opened
  case isTrue => simp at opened
  case isFalse nonempty =>
      have isLabel : IsLabel (named.takeWhile isNameChar) :=
        ⟨by simpa using nonempty, List.all_eq_true.mp List.all_takeWhile⟩
      cases quote with
      | none =>
          cases opened
          exact isLabel
      | some mark =>
          dsimp only at opened
          split at opened
          · cases opened
            exact isLabel
          · simp at opened

theorem closingLine_split {label line : List Char} {more : Nat}
    (found : closingLine label line = some more) :
    ∃ indent back, line = indent ++ label ++ back ∧ (∀ c ∈ indent, isIndent c = true) ∧
      endsOrStarts (!isNameChar ·) back = true ∧ more = indent.length + label.length := by
  unfold closingLine at found
  dsimp only at found
  split at found
  case isTrue closes =>
      obtain ⟨back, labelled⟩ := List.isPrefixOf_iff_prefix.mp closes.1
      refine ⟨line.takeWhile isIndent, back, ?_, List.all_eq_true.mp List.all_takeWhile, ?_,
        (Option.some.inj found).symm⟩
      · rw [List.append_assoc, labelled]
        exact (List.prefix_iff_eq_append.mp (List.takeWhile_prefix isIndent)).symm
      · simpa [← labelled] using closes.2
  case isFalse => cases found

theorem closingLine_le {label line : List Char} {more : Nat}
    (found : closingLine label line = some more) : more ≤ line.length := by
  obtain ⟨indent, back, rfl, -, -, rfl⟩ := closingLine_split found
  simp only [List.length_append]
  omega

theorem closingLine_of_indent {indent label text : List Char} (isLabel : IsLabel label)
    (indented : ∀ c ∈ indent, isIndent c = true) (stop : endsOrStarts (!isNameChar ·) text = true) :
    closingLine label (indent ++ label ++ text) = some (indent.length + label.length) := by
  have run : (indent ++ label ++ text).takeWhile isIndent = indent := by
    rw [List.append_assoc]
    exact takeWhile_run indented (isLabel.stopsIndent text)
  unfold closingLine
  simp only [run]
  rw [List.append_assoc, List.drop_left, List.drop_left]
  simp [stop]

theorem closingLine_local {label front text other : List Char} (isLabel : IsLabel label)
    (stops : endsOrStarts (!isNameChar ·) text = true → endsOrStarts (!isNameChar ·) other = true)
    (found : closingLine label (front ++ text) = some front.length) :
    closingLine label (front ++ other) = some front.length := by
  obtain ⟨indent, back, whole, indented, ends, length⟩ := closingLine_split found
  obtain ⟨rfl, rfl⟩ := List.append_inj whole (by simp [length])
  rw [List.length_append]
  exact closingLine_of_indent isLabel indented (stops ends)

theorem heredocBody_bounds {label text : List Char} {more : Nat}
    (found : heredocBody label text = some more) : 0 < more ∧ more ≤ text.length := by
  induction text generalizing more with
  | nil => simp [heredocBody] at found
  | cons c rest inductionHypothesis =>
      rw [heredocBody] at found
      split at found
      case h_1 extent closes =>
          cases found
          split at closes
          · have length := closingLine_le closes
            simp only [List.length_cons]
            omega
          · simp at closes
      case h_2 =>
          obtain ⟨later, inRest, rfl⟩ := Option.map_eq_some_iff.mp found
          have bounds := inductionHypothesis inRest
          simp only [List.length_cons]
          omega

theorem heredocBody_lineBreak {label front text : List Char}
    (found : heredocBody label (front ++ text) = some front.length) : '\n' ∈ front := by
  induction front with
  | nil => exact absurd (heredocBody_bounds found).1 (by simp)
  | cons c front inductionHypothesis =>
      rw [List.cons_append, heredocBody] at found
      by_cases lineBreak : c = '\n'
      · rw [lineBreak]
        exact List.mem_cons_self
      · rw [if_neg lineBreak] at found
        obtain ⟨later, inRest, length⟩ := Option.map_eq_some_iff.mp found
        obtain rfl : later = front.length := by simpa using length
        exact List.mem_cons_of_mem c (inductionHypothesis inRest)

theorem heredocBody_local {label front text other : List Char} (isLabel : IsLabel label)
    (stops : endsOrStarts (!isNameChar ·) text = true → endsOrStarts (!isNameChar ·) other = true)
    (found : heredocBody label (front ++ text) = some front.length) :
    heredocBody label (front ++ other) = some front.length := by
  induction front with
  | nil => exact absurd (heredocBody_bounds found).1 (by simp)
  | cons c front inductionHypothesis =>
      rw [List.cons_append, heredocBody] at found ⊢
      split at found
      case h_1 extent closes =>
          obtain rfl : extent = front.length := by simpa using found
          split at closes
          case isTrue lineBreak =>
              rw [if_pos lineBreak, closingLine_local isLabel stops closes]
              rfl
          case isFalse => simp at closes
      case h_2 stays =>
          obtain ⟨later, inRest, length⟩ := Option.map_eq_some_iff.mp found
          obtain rfl : later = front.length := by simpa using length
          -- The heredoc goes on to another line, so this one does not see what is behind.
          obtain ⟨line, back, rfl, oneLine⟩ :=
            List.eq_append_cons_of_mem (heredocBody_lineBreak inRest)
          have same : closingLine label (line ++ '\n' :: back ++ other) =
              closingLine label (line ++ '\n' :: back ++ text) := by
            simpa using closingLine_line oneLine (back ++ other) (back ++ text) isLabel.oneLine
          rw [same, stays, inductionHypothesis inRest]
          rfl

theorem heredocExtent_cases {text : List Char} {more : Nat} (found : heredocExtent text = .ok more) :
    ∃ label head body, openingLabel text = .ok (label, head) ∧
      heredocBody label (text.drop head) = some body ∧ more = head + body := by
  unfold heredocExtent at found
  cases opened : openingLabel text with
  | error fault => simp [opened, bind, Except.bind] at found
  | ok opening =>
      obtain ⟨label, head⟩ := opening
      simp only [opened, bind, Except.bind] at found
      cases closed : heredocBody label (text.drop head) with
      | none => simp [closed] at found
      | some body =>
          rw [closed] at found
          exact ⟨label, head, body, rfl, closed, (Except.ok.inj found).symm⟩

theorem heredocExtent_le {text : List Char} {more : Nat} (found : heredocExtent text = .ok more) :
    more ≤ text.length := by
  obtain ⟨label, head, body, -, closed, rfl⟩ := heredocExtent_cases found
  have bounds := heredocBody_bounds closed
  rw [List.length_drop] at bounds
  omega

theorem heredocExtent_local {front text other : List Char}
    (stops : endsOrStarts (!isNameChar ·) text = true → endsOrStarts (!isNameChar ·) other = true)
    (found : heredocExtent (front ++ text) = .ok front.length) :
    heredocExtent (front ++ other) = .ok front.length := by
  obtain ⟨label, head, body, opened, closed, length⟩ := heredocExtent_cases found
  have inFront : head ≤ front.length := by omega
  have rest : (front.drop head).length = body := by
    rw [List.length_drop]
    omega
  rw [List.drop_append_of_le_length inFront, ← rest] at closed
  have isLabel := openingLabel_isLabel opened
  have lineBreak : '\n' ∈ front := List.mem_of_mem_drop (heredocBody_lineBreak closed)
  have sameLabel : openingLabel (front ++ other) = .ok (label, head) := by
    obtain ⟨line, back, rfl, oneLine⟩ := List.eq_append_cons_of_mem lineBreak
    rw [← opened]
    simpa using openingLabel_line oneLine (back ++ other) (back ++ text)
  unfold heredocExtent
  simp only [sameLabel, bind, Except.bind]
  rw [List.drop_append_of_le_length inFront, heredocBody_local isLabel stops closed, rest, length]

end AutoloadIndex.Lexeme
