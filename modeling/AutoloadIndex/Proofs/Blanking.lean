import AutoloadIndex.Dialect.Lowering

set_option autoImplicit false

/-!
Blanked texts. Outside the ranges a text stays as it is, inside of them every character becomes
white space of the same width.
-/

namespace AutoloadIndex.Dialect

theorem blankChar_width (c : Char) : Text.width (blankChar c) = c.utf8Size := by
  have spaces : ∀ n, Text.width (List.replicate n ' ') = n := by
    intro n
    induction n with
    | zero => rfl
    | succ n inductionHypothesis =>
        rw [List.replicate_succ, Text.width_cons, inductionHypothesis, Nat.add_comm]
        rfl
  unfold blankChar
  split
  · simp
  · exact spaces c.utf8Size

theorem blankChar_isSpace (c : Char) : ∀ d ∈ blankChar c, Lexeme.isSpace d = true := by
  intro d membership
  unfold blankChar at membership
  split at membership
  case isTrue lineBreak =>
      rw [List.mem_singleton.mp membership]
      rcases lineBreak with rfl | rfl <;> rfl
  case isFalse =>
      rw [List.eq_of_mem_replicate membership]
      rfl

theorem blankChar_ne_nil (c : Char) : blankChar c ≠ [] := by
  intro empty
  have width := blankChar_width c
  rw [empty] at width
  exact absurd width.symm (Nat.ne_of_gt c.utf8Size_pos)

theorem blanks_width (text : List Char) :
    Text.width (text.flatMap blankChar) = Text.width text := by
  induction text with
  | nil => rfl
  | cons c rest inductionHypothesis => simp [blankChar_width, inductionHypothesis]

theorem blanks_isSpace (text : List Char) :
    ∀ d ∈ text.flatMap blankChar, Lexeme.isSpace d = true := by
  intro d membership
  obtain ⟨c, -, inBlank⟩ := List.mem_flatMap.mp membership
  exact blankChar_isSpace c d inBlank

theorem blankFrom_nil (offset : Nat) (text : List Char) : blankFrom offset [] text = text := by
  cases text <;> rfl

theorem blankFrom_passed {offset : Nat} {span : Span} (passed : span.stop ≤ offset)
    (rest : List Span) (text : List Char) :
    blankFrom offset (span :: rest) text = blankFrom offset rest text := by
  cases text with
  | nil => rfl
  | cons c text => simp [blankFrom, passed]

theorem blankFrom_cons {offset : Nat} {span : Span} (ahead : offset < span.stop)
    (rest : List Span) (c : Char) (text : List Char) :
    blankFrom offset (span :: rest) (c :: text) =
      (if span.start ≤ offset then blankChar c else [c]) ++
        blankFrom (offset + c.utf8Size) (span :: rest) text := by
  have kept : ¬ span.stop ≤ offset := by omega
  simp [blankFrom, kept]

theorem blankFrom_outside {offset : Nat} {spans : List Span} {front : List Char}
    (filled : ∀ span ∈ spans, span.start < span.stop)
    (outside : ∀ span ∈ spans, offset + Text.width front ≤ span.start) (text : List Char) :
    blankFrom offset spans (front ++ text) =
      front ++ blankFrom (offset + Text.width front) spans text := by
  cases spans with
  | nil => rw [blankFrom_nil, blankFrom_nil]
  | cons span rest =>
      have isFilled := filled span List.mem_cons_self
      have isOutside := outside span List.mem_cons_self
      clear filled outside
      induction front generalizing offset with
      | nil => rfl
      | cons c front inductionHypothesis =>
          have positive := c.utf8Size_pos
          rw [Text.width_cons, ← Nat.add_assoc] at isOutside ⊢
          rw [List.cons_append, blankFrom_cons (by omega), if_neg (by omega),
            inductionHypothesis isOutside]
          rfl

theorem blankFrom_inside {offset : Nat} {span : Span} {front : List Char}
    (started : span.start ≤ offset) (inside : offset + Text.width front ≤ span.stop)
    (rest : List Span) (text : List Char) :
    blankFrom offset (span :: rest) (front ++ text) =
      front.flatMap blankChar ++
        blankFrom (offset + Text.width front) (span :: rest) text := by
  induction front generalizing offset with
  | nil => rfl
  | cons c front inductionHypothesis =>
      have positive := c.utf8Size_pos
      rw [Text.width_cons, ← Nat.add_assoc] at inside ⊢
      rw [List.cons_append, blankFrom_cons (by omega), if_pos started,
        inductionHypothesis (by omega) inside, List.flatMap_cons, List.append_assoc]

end AutoloadIndex.Dialect
