import AutoloadIndex.Proofs.ByteRounds
import AutoloadIndex.Proofs.Lookahead

set_option autoImplicit false

/-!
Where a heredoc ends. The lexer goes on to the first later line that has nothing but indentation in
front of the label and no further character of a name behind it. The heredoc ends with the label on
that line, whatever stands in the lines before, and without such a line it has no end.
-/

namespace AutoloadIndex.Lexeme

/-- What opens a heredoc behind its three marks: indentation, and the label in quotes or without
them. Without quotes what is behind the label may not go on with it. -/
inductive OpensHeredoc (label : List Char) : List Char → List Char → Prop where
  | bare {indent body : List Char} (indented : ∀ c ∈ indent, isIndent c = true)
      (ends : endsOrStarts (!isNameChar ·) body = true) :
      OpensHeredoc label (indent ++ label) body
  | quoted {indent body : List Char} {quote : Char} (isQuote : quote = '\'' ∨ quote = '"')
      (indented : ∀ c ∈ indent, isIndent c = true) :
      OpensHeredoc label (indent ++ quote :: (label ++ [quote])) body

/-- A line that closes a heredoc: indentation, the label, and no further character of a name. -/
def Closes (label line : List Char) : Prop :=
  ∃ indent back, line = indent ++ label ++ back ∧ (∀ c ∈ indent, isIndent c = true) ∧
    endsOrStarts (!isNameChar ·) back = true

def HasEnd (label text : List Char) : Prop :=
  ∃ front line, text = front ++ '\n' :: line ∧ Closes label line

/-- The heredoc ends on the line behind `front`, which is the first one that closes it. -/
structure EndsBehind (label body front indent back : List Char) : Prop where
  split : body = front ++ '\n' :: (indent ++ label ++ back)
  unclosed : ¬ HasEnd label front
  indented : ∀ c ∈ indent, isIndent c = true
  ends : endsOrStarts (!isNameChar ·) back = true

section Lines

variable {label line text rest : List Char}

theorem hasEnd_nil : ¬ HasEnd label [] := by
  rintro ⟨front, line, isEmpty, -⟩
  simp at isEmpty

theorem hasEnd_cons {c : Char} :
    HasEnd label (c :: rest) ↔ (c = '\n' ∧ Closes label rest) ∨ HasEnd label rest := by
  constructor
  · rintro ⟨front, line, split, closes⟩
    cases front with
    | nil =>
        obtain ⟨rfl, rfl⟩ := List.cons.inj split
        exact .inl ⟨rfl, closes⟩
    | cons d front =>
        obtain ⟨rfl, rfl⟩ := List.cons.inj split
        exact .inr ⟨front, line, rfl, closes⟩
  · rintro (⟨rfl, closes⟩ | ⟨front, line, rfl, closes⟩)
    · exact ⟨[], rest, rfl, closes⟩
    · exact ⟨c :: front, line, rfl, closes⟩

theorem closingLine_of_not_closes (stays : ¬ Closes label line) :
    closingLine label line = none := by
  rw [Option.eq_none_iff_forall_ne_some]
  intro more found
  obtain ⟨indent, back, whole, indented, ends, -⟩ := closingLine_split found
  exact stays ⟨indent, back, whole, indented, ends⟩

theorem heredocBody_cons {c : Char} (goesOn : c = '\n' → ¬ Closes label rest) :
    heredocBody label (c :: rest) = (heredocBody label rest).map (· + 1) := by
  rw [heredocBody]
  split
  case h_1 extent closes =>
      split at closes
      case isTrue lineBreak =>
          rw [closingLine_of_not_closes (goesOn lineBreak)] at closes
          cases closes
      case isFalse => cases closes
  case h_2 => rfl

theorem heredocBody_of_not_hasEnd (endless : ¬ HasEnd label text) :
    heredocBody label text = none := by
  induction text with
  | nil => rfl
  | cons c rest inductionHypothesis =>
      rw [hasEnd_cons, not_or, not_and] at endless
      rw [heredocBody_cons endless.1, inductionHypothesis endless.2, Option.map_none]

variable (isLabel : IsLabel label)

include isLabel

theorem closes_append : Closes label (line ++ '\n' :: rest) ↔ Closes label line := by
  constructor
  · rintro ⟨indent, back, whole, indented, ends⟩
    have oneLine : '\n' ∉ indent ++ label := by
      rw [List.mem_append, not_or]
      exact ⟨fun membership => absurd (indented _ membership) (by decide), isLabel.oneLine⟩
    rcases List.append_eq_append_iff.mp whole with ⟨middle, isHead, behind⟩ | ⟨middle, rfl, rfl⟩
    · -- The label cannot go on behind the end of the line, so it ends there.
      cases middle with
      | nil => exact ⟨indent, [], by simpa using isHead.symm, indented, rfl⟩
      | cons c middle =>
          obtain ⟨rfl, -⟩ := List.cons.inj behind
          exact absurd (isHead ▸ List.mem_append_right line List.mem_cons_self) oneLine
    · refine ⟨indent, middle, rfl, indented, ?_⟩
      cases middle with
      | nil => rfl
      | cons c middle => exact ends
  · rintro ⟨indent, back, rfl, indented, ends⟩
    refine ⟨indent, back ++ '\n' :: rest, by simp, indented, ?_⟩
    cases back with
    | nil => rfl
    | cons c back => exact ends

theorem exists_endsBehind (hasEnd : HasEnd label text) :
    ∃ front indent back, EndsBehind label text front indent back := by
  induction text with
  | nil => exact absurd hasEnd hasEnd_nil
  | cons c rest inductionHypothesis =>
      by_cases here : c = '\n' ∧ Closes label rest
      · obtain ⟨rfl, indent, back, rfl, indented, ends⟩ := here
        exact ⟨[], indent, back, rfl, hasEnd_nil, indented, ends⟩
      · have later := (hasEnd_cons.mp hasEnd).resolve_left here
        obtain ⟨front, indent, back, rfl, unclosed, indented, ends⟩ := inductionHypothesis later
        refine ⟨c :: front, indent, back, rfl, ?_, indented, ends⟩
        rw [hasEnd_cons, ← closes_append isLabel]
        exact not_or.mpr ⟨here, unclosed⟩

end Lines

namespace EndsBehind

variable {label body front indent back : List Char} (isLabel : IsLabel label)
  (endsBehind : EndsBehind label body front indent back)

include isLabel endsBehind

theorem first {earlier line : List Char} (split : body = earlier ++ '\n' :: line)
    (closes : Closes label line) : front.length ≤ earlier.length := by
  rw [endsBehind.split] at split
  rcases List.append_eq_append_iff.mp split with ⟨middle, rfl, -⟩ | ⟨middle, isFront, behind⟩
  · simp
  · cases middle with
    | nil => simp [isFront]
    | cons c middle =>
        obtain ⟨rfl, rfl⟩ := List.cons.inj behind
        have inFront : Closes label middle := (closes_append isLabel).mp closes
        exact absurd ⟨earlier, middle, isFront, inFront⟩ endsBehind.unclosed

theorem heredocBody :
    heredocBody label body = some (front ++ '\n' :: (indent ++ label)).length := by
  have opening := closingLine_of_indent isLabel endsBehind.indented endsBehind.ends
  obtain ⟨rfl, unclosed, -, -⟩ := endsBehind
  induction front with
  | nil =>
      rw [List.nil_append, Lexeme.heredocBody, if_pos rfl, opening]
      simp
  | cons c front inductionHypothesis =>
      rw [hasEnd_cons, not_or, not_and, ← closes_append isLabel] at unclosed
      rw [List.cons_append, heredocBody_cons unclosed.1,
        inductionHypothesis unclosed.2]
      rfl

end EndsBehind

theorem heredocBody_eq_none_iff {label text : List Char} (isLabel : IsLabel label) :
    heredocBody label text = none ↔ ¬ HasEnd label text := by
  refine ⟨?_, heredocBody_of_not_hasEnd⟩
  intro endless hasEnd
  obtain ⟨front, indent, back, endsBehind⟩ := exists_endsBehind isLabel hasEnd
  cases endless.symm.trans (endsBehind.heredocBody isLabel)

section Opening

variable {label opening body : List Char} (isLabel : IsLabel label)

include isLabel

theorem openingLabel_of_opens (opens : OpensHeredoc label opening body) :
    openingLabel (opening ++ body) = .ok (label, opening.length) := by
  have nonempty : label.isEmpty = false := by simpa using isLabel.nonempty
  cases opens with
  | @bare indent _ indented ends =>
      have run : (indent ++ (label ++ body)).takeWhile isIndent = indent :=
        takeWhile_run indented (isLabel.stopsIndent body)
      have name : (label ++ body).takeWhile isNameChar = label := takeWhile_run isLabel.named ends
      have unquoted : (label ++ body).head?.filter (fun c => c == '\'' || c == '"') = none := by
        obtain ⟨c, more, rfl⟩ := List.exists_cons_of_ne_nil isLabel.nonempty
        have named := isLabel.named c List.mem_cons_self
        simp only [List.cons_append, List.head?_cons, Option.filter_some, ite_eq_right_iff,
          Bool.or_eq_true, beq_iff_eq]
        rintro (rfl | rfl) <;> exact absurd named (by decide)
      rw [List.append_assoc, openingLabel]
      simp only [run, List.drop_left, unquoted, Option.isSome_none, Bool.false_eq_true, if_false,
        name, nonempty, List.length_append]
  | @quoted indent _ quote isQuote indented =>
      have run : (indent ++ quote :: (label ++ quote :: body)).takeWhile isIndent = indent := by
        refine takeWhile_run indented ?_
        rcases isQuote with rfl | rfl <;> rfl
      have name : (label ++ quote :: body).takeWhile isNameChar = label := by
        refine takeWhile_run isLabel.named ?_
        rcases isQuote with rfl | rfl <;> rfl
      have found : (some quote).filter (fun c => c == '\'' || c == '"') = some quote := by
        rcases isQuote with rfl | rfl <;> rfl
      have split : indent ++ quote :: (label ++ [quote]) ++ body =
          indent ++ quote :: (label ++ quote :: body) := by simp
      rw [split, openingLabel]
      simp only [run, List.drop_left, List.head?_cons, found, Option.isSome_some, if_true,
        List.tail_cons, name, nonempty, Bool.false_eq_true, if_false]
      simp [Nat.add_assoc]

theorem heredocExtent_of_opens (opens : OpensHeredoc label opening body) :
    heredocExtent (opening ++ body) =
      match heredocBody label body with
      | some extent => .ok (opening.length + extent)
      | none => .error .unterminatedHeredoc := by
  rw [heredocExtent, openingLabel_of_opens isLabel opens]
  change (match heredocBody label ((opening ++ body).drop opening.length) with
    | some extent => Except.ok (opening.length + extent)
    | none => Except.error LexFault.unterminatedHeredoc) = _
  rw [List.drop_left]

theorem EndsBehind.heredocExtent {front indent back : List Char}
    (endsBehind : EndsBehind label body front indent back)
    (opens : OpensHeredoc label opening body) :
    heredocExtent (opening ++ body) =
      .ok (opening ++ (front ++ '\n' :: (indent ++ label))).length := by
  rw [heredocExtent_of_opens isLabel opens, endsBehind.heredocBody isLabel]
  exact congrArg Except.ok List.length_append.symm

theorem heredocExtent_of_not_hasEnd (opens : OpensHeredoc label opening body)
    (endless : ¬ HasEnd label body) :
    heredocExtent (opening ++ body) = .error .unterminatedHeredoc := by
  rw [heredocExtent_of_opens isLabel opens, heredocBody_of_not_hasEnd endless]

end Opening

section Reading

variable {mode : Mode} {before text : List Char} {found : List Lexeme}

theorem lex_marks (reaches : Reaches ('<' :: '<' :: '<' :: text) mode 0 before found .code) :
    lex mode (before ++ '<' :: '<' :: '<' :: text) =
      match heredocExtent text with
      | .ok more =>
        let stop := Text.width before + Text.width ('<' :: '<' :: '<' :: text.take more)
        (lexFrom .code stop (text.drop more)).map
          (found ++ ⟨.template, Text.width before, stop⟩ :: ·)
      | .error fault => .error ⟨fault, Text.width before⟩ := by
  have isPiece : piece .code '<' ('<' :: '<' :: text) =
      match heredocExtent text with
      | .ok more => .ok (.lexeme .template (more + 2))
      | .error fault => .error (fault, 0) := rfl
  rw [lex, reaches.lexFrom, Nat.zero_add]
  cases extent : heredocExtent text with
  | ok more =>
      rw [extent] at isPiece
      rw [ByteLexer.lexFrom_lexeme isPiece]
      simp only [List.take_succ_cons, List.drop_succ_cons, Token.following]
      cases lexFrom .code _ (text.drop more) <;> rfl
  | error fault =>
      rw [extent] at isPiece
      rw [lexFrom, isPiece]
      rfl

variable {label opening body : List Char} (isLabel : IsLabel label)
  (opens : OpensHeredoc label opening body)

include isLabel opens

theorem skipHeredoc_eq_ok_iff (before : List Char) :
    (∃ stop, ByteLexer.skipHeredoc (before ++ '<' :: '<' :: '<' :: (opening ++ body))
      (Text.width before) = .ok stop) ↔ HasEnd label body := by
  rw [ByteLexer.skipHeredoc_marks]
  constructor
  · rintro ⟨stop, read⟩
    by_contra endless
    rw [heredocExtent_of_not_hasEnd isLabel opens endless] at read
    cases read
  · intro hasEnd
    obtain ⟨front, indent, back, endsBehind⟩ := exists_endsBehind isLabel hasEnd
    rw [endsBehind.heredocExtent isLabel opens]
    exact ⟨_, rfl⟩

variable (reaches : Reaches ('<' :: '<' :: '<' :: (opening ++ body)) mode 0 before found .code)

include reaches

/-- The lexer goes on behind the first closing label, on bytes as on characters. -/
theorem EndsBehind.lex {front indent back : List Char}
    (endsBehind : EndsBehind label body front indent back) :
    let source := before ++ '<' :: '<' :: '<' :: (opening ++ body)
    let start := Text.width before
    let inside := opening ++ (front ++ '\n' :: (indent ++ label))
    let stop := start + Text.width ('<' :: '<' :: '<' :: inside)
    ByteLexer.skipHeredoc source start = .ok stop ∧
      lex mode source = (lexFrom .code stop back).map (found ++ ⟨.template, start, stop⟩ :: ·) := by
  intro source start inside stop
  have whole : opening ++ body = inside ++ back := by
    simp [inside, endsBehind.split]
  have extent : Lexeme.heredocExtent (opening ++ body) = .ok inside.length :=
    endsBehind.heredocExtent isLabel opens
  rw [whole] at extent
  constructor
  · refine (ByteLexer.skipHeredoc_marks before (opening ++ body)).trans ?_
    simp only [whole, extent]
    rw [List.take_left]
  · refine (lex_marks reaches).trans ?_
    simp only [whole, extent]
    rw [List.take_left, List.drop_left]

theorem lex_of_not_hasEnd (endless : ¬ HasEnd label body) :
    let source := before ++ '<' :: '<' :: '<' :: (opening ++ body)
    let start := Text.width before
    ByteLexer.skipHeredoc source start = .error (.fault ⟨.unterminatedHeredoc, start⟩) ∧
      lex mode source = .error ⟨.unterminatedHeredoc, start⟩ := by
  have extent := heredocExtent_of_not_hasEnd isLabel opens endless
  constructor
  · rw [ByteLexer.skipHeredoc_marks, extent]
  · rw [lex_marks reaches, extent]

end Reading

/-- A heredoc in code ends exactly if a later line closes it, and it ends with the label on the
first such line: there the lexer goes on. What stands in the lines before has no influence but by
its width. Without such a line the heredoc is reported at its marks. -/
theorem lex_heredoc {mode : Mode} {before label opening body : List Char} {found : List Lexeme}
    (isLabel : IsLabel label) (opens : OpensHeredoc label opening body)
    (reaches : Reaches ('<' :: '<' :: '<' :: (opening ++ body)) mode 0 before found .code) :
    let source := before ++ '<' :: '<' :: '<' :: (opening ++ body)
    let start := Text.width before
    ((∃ stop, ByteLexer.skipHeredoc source start = .ok stop) ↔ HasEnd label body) ∧
    (HasEnd label body → ∃ front indent back, EndsBehind label body front indent back) ∧
    (∀ front indent back, EndsBehind label body front indent back →
      let inside := opening ++ (front ++ '\n' :: (indent ++ label))
      let stop := start + Text.width ('<' :: '<' :: '<' :: inside)
      (∀ earlier line, body = earlier ++ '\n' :: line → Closes label line →
        front.length ≤ earlier.length) ∧
      ByteLexer.skipHeredoc source start = .ok stop ∧
      lex mode source = (lexFrom .code stop back).map (found ++ ⟨.template, start, stop⟩ :: ·)) ∧
    (¬ HasEnd label body →
      ByteLexer.skipHeredoc source start = .error (.fault ⟨.unterminatedHeredoc, start⟩) ∧
      lex mode source = .error ⟨.unterminatedHeredoc, start⟩) := by
  refine ⟨skipHeredoc_eq_ok_iff isLabel opens before, exists_endsBehind isLabel, ?_,
    lex_of_not_hasEnd isLabel opens reaches⟩
  intro front indent back endsBehind
  exact ⟨fun earlier line => endsBehind.first isLabel, endsBehind.lex isLabel opens reaches⟩

theorem reaches_tagged (behind : List Char) :
    Reaches behind .html 0 "<?php ".toList [⟨.openTag, 0, 5⟩] .code := by
  have tag : piece .html '<' (['?', 'p', 'h', 'p'] ++ ([' '] ++ behind)) =
      .ok (.lexeme .openTag 4) := rfl
  have space : piece .code ' ' ([] ++ ([] ++ behind)) = .ok (.gap 0) := rfl
  exact .lexeme tag (.gap space .here)

/-- A quote, a brace, a close tag and a line that begins with the label stand in a heredoc, and
without the last line it has no end. -/
theorem lex_heredoc_quoted :
    EndsBehind ['E'] "\n it's \x7b ?>\nEx\n\tE;".toList "\n it's \x7b ?>\nEx".toList ['\t'] [';'] ∧
      lex .html "<?php <<<'E'\n it's \x7b ?>\nEx\n\tE;".toList =
        .ok [⟨.openTag, 0, 5⟩, ⟨.template, 6, 29⟩, ⟨.punct ';', 29, 30⟩] ∧
      lex .html "<?php <<<'E'\n it's \x7b ?>\nEx".toList = .error ⟨.unterminatedHeredoc, 6⟩ := by
  have isLabel : IsLabel ['E'] := ⟨by simp, List.forall_mem_singleton.mpr rfl⟩
  have unclosed : ¬ HasEnd ['E'] "\n it's \x7b ?>\nEx".toList :=
    (heredocBody_eq_none_iff isLabel).mp (by decide +kernel)
  have opens : ∀ body, OpensHeredoc ['E'] "'E'".toList body :=
    fun body => @OpensHeredoc.quoted ['E'] [] body '\'' (.inl rfl) (List.forall_mem_nil _)
  have endsBehind : EndsBehind ['E'] "\n it's \x7b ?>\nEx\n\tE;".toList
      "\n it's \x7b ?>\nEx".toList ['\t'] [';'] :=
    ⟨rfl, unclosed, List.forall_mem_singleton.mpr rfl, rfl⟩
  refine ⟨endsBehind, ?_, ?_⟩
  · have read := (lex_heredoc isLabel (opens _) (reaches_tagged _)).2.2.1 _ _ _ endsBehind
    refine read.2.2.trans ?_
    decide +kernel
  · exact ((lex_heredoc isLabel (opens _) (reaches_tagged _)).2.2.2 unclosed).2

end AutoloadIndex.Lexeme
