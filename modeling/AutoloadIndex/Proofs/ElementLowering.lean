import AutoloadIndex.Proofs.ElementHeaders

set_option autoImplicit false

/-!
Element headers are replaced on the raw text. The lexer finds the same strings afterwards if each
header begins where a lexeme could begin and ends where none goes on, or lies inside of a comment.
-/

namespace AutoloadIndex.Dialect

open Lexeme

section Comments

/-- A part of a comment, and the part with some names in it replaced. -/
inductive Renamed : List Char → List Char → Prop where
  | nil : Renamed [] []
  | char {c : Char} {front lowered : List Char} :
      Renamed front lowered → Renamed (c :: front) (c :: lowered)
  | name {c d : Char} {name replaced front lowered : List Char} :
      (∀ e ∈ c :: name, isInNames e = true) → (∀ e ∈ d :: replaced, isInNames e = true) →
      Renamed front lowered →
      Renamed (c :: (name ++ front)) (d :: (replaced ++ lowered))

theorem Renamed.of_append {front lowered : List Char} (head : List Char)
    (renamed : Renamed front lowered) : Renamed (head ++ front) (head ++ lowered) := by
  induction head with
  | nil => exact renamed
  | cons c head inductionHypothesis => exact .char inductionHypothesis

theorem Renamed.cons_cases {c : Char} {front lowered : List Char} (outside : isInNames c = false)
    (renamed : Renamed (c :: front) lowered) :
    ∃ rest, lowered = c :: rest ∧ Renamed front rest := by
  cases renamed with
  | char renamed => exact ⟨_, rfl, renamed⟩
  | name inName => exact absurd (inName c List.mem_cons_self) (by simp [outside])

theorem Renamed.nil_cases {lowered : List Char} (renamed : Renamed [] lowered) : lowered = [] := by
  cases renamed
  rfl

theorem Renamed.head?_iff {front lowered text other : List Char} {d : Char}
    (renamed : Renamed front lowered) (same : text.head? = other.head?)
    (outside : isInNames d = false) :
    (front ++ text).head? = some d ↔ (lowered ++ other).head? = some d := by
  have differs : ∀ {e : Char}, isInNames e = true → ¬ some e = some d := by
    rintro e inName equality
    cases equality
    exact absurd inName (by simp [outside])
  cases renamed with
  | nil => simp [same]
  | char => rfl
  | name inName alsoInName =>
      exact iff_of_false (differs (inName _ List.mem_cons_self))
        (differs (alsoInName _ List.mem_cons_self))

theorem lineComment_name {name : List Char} (inName : ∀ c ∈ name, isInNames c = true)
    (text : List Char) : lineComment (name ++ text) = name.length + lineComment text := by
  induction name with
  | nil => simp
  | cons c name inductionHypothesis =>
      have goesOn : ¬ (c = '\n' ∨ (c = '?' ∧ (name ++ text).head? = some '>')) := by
        rintro (rfl | ⟨rfl, -⟩) <;> exact absurd (inName _ List.mem_cons_self) (by decide)
      rw [List.cons_append, lineComment, if_neg goesOn,
        inductionHypothesis fun d later => inName d (List.mem_cons_of_mem c later),
        List.length_cons]
      omega

theorem blockComment_name {name : List Char} (inName : ∀ c ∈ name, isInNames c = true)
    (text : List Char) :
    blockComment (name ++ text) = (blockComment text).map (name.length + ·) := by
  induction name with
  | nil => simp
  | cons c name inductionHypothesis =>
      have goesOn : ¬ (c = '*' ∧ (name ++ text).head? = some '/') := by
        rintro ⟨rfl, -⟩
        exact absurd (inName _ List.mem_cons_self) (by decide)
      rw [List.cons_append, blockComment, if_neg goesOn,
        inductionHypothesis fun d later => inName d (List.mem_cons_of_mem c later), Option.map_map]
      congr 1
      funext more
      simp only [Function.comp_apply, List.length_cons]
      omega

variable {front lowered text other : List Char} (renamed : Renamed front lowered)
  (alike : Alike text other)

include renamed alike

theorem lineComment_renamed (extent : lineComment (front ++ text) = front.length) :
    lineComment (lowered ++ other) = lowered.length := by
  induction renamed with
  | nil => exact @lineComment_alike [] text other alike extent
  | @char c front lowered renamed inductionHypothesis =>
      have angle := renamed.head?_iff alike.head? (show isInNames '>' = false by decide)
      simp only [List.cons_append, lineComment, angle] at extent ⊢
      split at extent
      case isTrue => cases extent
      case isFalse goesOn =>
          rw [if_neg goesOn, inductionHypothesis (Nat.succ.inj extent), List.length_cons]
  | name inName alsoInName renamed inductionHypothesis =>
      rw [← List.cons_append, List.append_assoc] at extent ⊢
      rw [lineComment_name inName, List.length_append] at extent
      rw [lineComment_name alsoInName, List.length_append,
        inductionHypothesis (Nat.add_left_cancel extent)]

theorem blockComment_renamed (closed : blockComment (front ++ text) = some front.length) :
    blockComment (lowered ++ other) = some lowered.length := by
  induction renamed with
  | nil => exact absurd (blockComment_bounds closed).1 (by simp)
  | @char c front lowered renamed inductionHypothesis =>
      rw [List.cons_append, blockComment] at closed
      rw [List.cons_append, blockComment]
      split at closed
      case isTrue closes =>
          -- The mark is all that is left.
          obtain ⟨slash, rfl⟩ : ∃ slash, front = [slash] :=
            List.length_eq_one_iff.mp (Nat.succ.inj (Option.some.inj closed)).symm
          obtain ⟨rest, rfl, empty⟩ := renamed.cons_cases (by cases closes.2; decide)
          rw [empty.nil_cases]
          exact if_pos closes
      case isFalse goesOn =>
          rw [renamed.head?_iff alike.head? (by decide)] at goesOn
          obtain ⟨more, isMore, next⟩ := Option.map_eq_some_iff.mp closed
          rw [if_neg goesOn, inductionHypothesis (isMore.trans (congrArg some (Nat.succ.inj next)))]
          rfl
  | name inName alsoInName renamed inductionHypothesis =>
      rw [← List.cons_append, List.append_assoc] at closed ⊢
      rw [blockComment_name inName, List.length_append] at closed
      obtain ⟨more, isMore, sum⟩ := Option.map_eq_some_iff.mp closed
      rw [blockComment_name alsoInName, List.length_append,
        inductionHypothesis (isMore.trans (congrArg some (Nat.add_left_cancel sum)))]
      rfl

/-- A gap stays one if names in it are replaced, since only comments have any. -/
theorem gap_renamed {mode : Mode} {c : Char}
    (read : piece mode c (front ++ text) = .ok (.gap front.length)) :
    piece mode c (lowered ++ other) = .ok (.gap lowered.length) := by
  cases mode with
  | html =>
      obtain rfl := htmlPiece_gap (Except.ok.inj read)
      rw [renamed.nil_cases]
      exact @piece_alike [] text other alike .html c _ read rfl
  | code =>
      apply CodePiece.eq
      have reads := codePiece_eq_iff.mp read
      generalize length : front.length = more at reads
      cases reads with
      | space space =>
          obtain rfl := List.eq_nil_of_length_eq_zero length
          rw [renamed.nil_cases]
          exact .space space
      | lineComment opens =>
          rw [← lineComment_renamed renamed alike length.symm]
          refine .lineComment (opens.imp (And.imp_right ?_) (And.imp_right (mt ?_)))
          · exact (renamed.head?_iff alike.head? (by decide)).mp
          · exact (renamed.head?_iff alike.head? (by decide)).mpr
      | blockComment mark star closed =>
          cases front with
          | nil => cases length
          | cons d front =>
              cases star
              obtain ⟨rest, rfl, inner⟩ := renamed.cons_cases (by decide)
              rw [← Nat.succ.inj length] at closed
              exact .blockComment mark rfl (blockComment_renamed inner alike closed)

end Comments

/-- Whether every header that begins among the first characters of a text ends there. -/
def headersWithin (previous : Option Char) (count : Nat) : List Char → Bool
  | [] => true
  | c :: rest =>
    count == 0 ||
      match headerAt previous (c :: rest) with
      | some (_, length) =>
        length ≤ count && headersWithin (some '_') (count - length) (rest.drop (length - 1))
      | none => headersWithin (some c) (count - 1) rest
termination_by text => text.length
decreasing_by all_goals simp only [List.length_drop, List.length_cons]; omega

/-- What is in front of a header does not matter behind it. -/
theorem lowerHeaders_of_stops {tail : List Char}
    (stops : endsOrStarts (!isElementChar ·) tail = true) (previous other : Option Char) :
    lowerHeaders previous tail = lowerHeaders other tail := by
  have noHeader : ∀ previous, headerAt previous tail = none := by
    intro previous
    rw [headerAt, elementHeader_of_stops stops, ite_self]
  cases tail with
  | nil => rw [lowerHeaders, lowerHeaders]
  | cons c rest => rw [lowerHeaders_cons (noHeader previous), lowerHeaders_cons (noHeader other)]

theorem lowerHeaders_within {previous : Option Char} {front text : List Char}
    (within : headersWithin previous front.length (front ++ text) = true) :
    ∃ lowered, Renamed front lowered ∧ lowerHeaders previous (front ++ text) =
      lowered ++ lowerHeaders (front.getLast?.or previous) text := by
  induction size : front.length using Nat.strongRecOn generalizing previous front with
  | ind _ inductionHypothesis =>
      subst size
      cases front with
      | nil => exact ⟨[], .nil, rfl⟩
      | cons c front =>
          rw [List.cons_append, headersWithin] at within
          cases found : headerAt previous (c :: (front ++ text)) with
          | none =>
              simp only [found, List.length_cons, Nat.add_sub_cancel, Bool.or_eq_true, beq_iff_eq,
                Nat.succ_ne_zero, false_or] at within
              obtain ⟨lowered, renamed, same⟩ := inductionHypothesis _ (by simp) within rfl
              refine ⟨c :: lowered, .char renamed, ?_⟩
              rw [List.cons_append, lowerHeaders_cons found, same, getLast?_cons_or,
                List.cons_append]
          | some header =>
              obtain ⟨lowered, count⟩ := header
              obtain ⟨head, name, tail, isHeader⟩ := headerAt_cases found
              simp only [found, isHeader.drop_rest, List.length_cons, Bool.or_eq_true, beq_iff_eq,
                Nat.succ_ne_zero, false_or, Bool.and_eq_true, decide_eq_true_eq] at within
              obtain ⟨short, within⟩ := within
              have isCount := isHeader.isCount
              have whole : (head ++ ':' :: name) ++ tail = (c :: front) ++ text := by
                rw [List.append_assoc]
                exact isHeader.whole.symm
              obtain ⟨behind, isFront⟩ : head ++ ':' :: name <+: c :: front := by
                refine List.prefix_of_prefix_length_le ⟨tail, whole⟩ ⟨text, rfl⟩ ?_
                simp only [List.length_append, List.length_cons]
                omega
              obtain rfl : tail = behind ++ text := by
                rw [← isFront, List.append_assoc _ behind] at whole
                exact List.append_cancel_left whole
              have length := congrArg List.length isFront
              simp only [List.length_append, List.length_cons] at length
              rw [show front.length + 1 - count = behind.length by omega] at within
              obtain ⟨later, renamed, same⟩ := inductionHypothesis behind.length
                (by simp only [List.length_cons]; omega) within rfl
              refine ⟨lowered ++ later, ?_, ?_⟩
              · rw [← isFront, isHeader.isLowered, List.append_assoc, List.append_assoc]
                exact .of_append head (.name isHeader.names isHeader.lowered_names renamed)
              · rw [List.cons_append, lowerHeaders_header found isHeader, same, List.append_assoc,
                  ← isFront, List.getLast?_append, Option.or_assoc]
                cases behind with
                | nil =>
                    exact congrArg (fun behind => lowered ++ (later ++ behind))
                      (lowerHeaders_of_stops isHeader.stops _ _)
                | cons d behind =>
                    rw [List.getLast?_eq_some_getLast (List.cons_ne_nil d behind), Option.some_or,
                      Option.some_or]

/-- Whether every header lies inside of a comment, or begins where the lexer is between two pieces
and in code ends where no lexeme goes on. No header begins inside of a string or a heredoc. -/
def keepsElements (mode : Mode) (previous : Option Char) : List Char → Bool
  | [] => true
  | c :: rest =>
    match headerAt previous (c :: rest) with
    | some (_, count) =>
      (mode == .html || endsOrStarts endsRegion (rest.drop (count - 1))) &&
        keepsElements mode (some '_') (rest.drop (count - 1))
    | none =>
      match piece mode c rest with
      | .error _ => true
      | .ok found =>
        (untouched (some c) found.more rest ||
            found == .gap found.more && headersWithin (some c) found.more rest) &&
          keepsElements (found.next mode) ((rest.take found.more).getLast?.or (some c))
            (rest.drop found.more)
termination_by text => text.length
decreasing_by all_goals simp only [List.length_drop, List.length_cons]; omega

theorem Header.tokens {text lowered head name tail other : List Char} {count : Nat}
    (isHeader : Header text lowered count head name tail) (alike : Alike tail other) {mode : Mode}
    (ends : mode = .html ∨ endsOrStarts endsRegion tail = true) :
    ∃ found replaced, strings found = [] ∧ strings replaced = [] ∧
      tokens mode text = prepend found (tokens mode tail) ∧
      tokens mode (lowered ++ other) = prepend replaced (tokens mode other) := by
  have whole : text = (head ++ ':' :: name) ++ tail := by simp [isHeader.whole]
  rw [whole]
  cases mode with
  | html =>
      rw [tokens_html_region tail isHeader.region, tokens_html_region other isHeader.lowered_region]
      exact ⟨[], [], rfl, rfl, (prepend_nil _).symm, (prepend_nil _).symm⟩
  | code =>
      have stops : endsOrStarts endsRegion tail = true := ends.resolve_left (by decide)
      have alsoStops : endsOrStarts endsRegion other = true := by
        rw [← alike.endsOrStarts, stops]
      obtain ⟨found, noString, isText⟩ := tokens_region isHeader.region stops
      obtain ⟨replaced, alsoNone, isOther⟩ := tokens_region isHeader.lowered_region alsoStops
      exact ⟨found, replaced, noString, alsoNone, isText, isOther⟩

/-- Behind a piece that keeps its headers, the lexer goes on in the same way. -/
theorem exists_lowered_piece {mode : Mode} {c : Char} {front text : List Char} {found : Piece}
    (read : piece mode c (front ++ text) = .ok found) (length : found.more = front.length)
    (kept : untouched (some c) front.length (front ++ text) = true ∨
      (found == .gap front.length) = true ∧
        headersWithin (some c) front.length (front ++ text) = true) :
    ∃ lowered other, lowerHeaders (some c) (front ++ text) =
        lowered ++ lowerHeaders (front.getLast?.or (some c)) text ∧
      piece mode c (lowered ++ lowerHeaders (front.getLast?.or (some c)) text) = .ok other ∧
      other.more = lowered.length ∧ other.next mode = found.next mode ∧
      other.tokens = found.tokens := by
  have alike := lowerHeaders_alike (front.getLast?.or (some c)) text
  rcases kept with same | ⟨isGap, within⟩
  · exact ⟨front, found, lowerHeaders_untouched same, piece_alike alike read length, length, rfl,
      rfl⟩
  · obtain rfl : found = .gap front.length := eq_of_beq isGap
    obtain ⟨lowered, renamed, isLowered⟩ := lowerHeaders_within within
    exact ⟨lowered, .gap lowered.length, isLowered, gap_renamed renamed alike read, rfl, rfl, rfl⟩

/-- The strings of a text whose headers are replaced, by induction over the pieces of the original
and over its headers. -/
theorem tokens_lowerHeaders {mode : Mode} {previous : Option Char} {text : List Char}
    {found : List Token} (kept : keepsElements mode previous text = true)
    (lexed : tokens mode text = .ok found) :
    ∃ lowered, tokens mode (lowerHeaders previous text) = .ok lowered ∧
      strings lowered = strings found := by
  induction size : text.length using Nat.strongRecOn generalizing mode previous text found with
  | ind _ inductionHypothesis =>
      subst size
      cases text with
      | nil => exact ⟨found, by rw [lowerHeaders, lexed], rfl⟩
      | cons c rest =>
          rw [keepsElements] at kept
          cases isHeader? : headerAt previous (c :: rest) with
          | some header =>
              obtain ⟨lowered, count⟩ := header
              obtain ⟨head, name, tail, isHeader⟩ := headerAt_cases isHeader?
              simp only [isHeader?, isHeader.drop_rest, Bool.and_eq_true, Bool.or_eq_true,
                beq_iff_eq] at kept
              have shorter : tail.length < (c :: rest).length := by
                rw [← isHeader.drop_rest, List.length_drop, List.length_cons]
                omega
              obtain ⟨passed, replaced, noString, alsoNone, isText, isOther⟩ :=
                isHeader.tokens (lowerHeaders_alike (some '_') tail) kept.1
              rw [isText] at lexed
              obtain ⟨behind, later, rfl⟩ := prepend_eq_ok lexed
              obtain ⟨others, relexed, same⟩ := inductionHypothesis _ shorter kept.2 later rfl
              refine ⟨replaced ++ others, ?_, ?_⟩
              · rw [lowerHeaders_header isHeader? isHeader, isOther, relexed]
                rfl
              · rw [strings_append, strings_append, noString, alsoNone, same]
          | none =>
              simp only [isHeader?] at kept
              rw [tokens_cons] at lexed
              cases read : piece mode c rest with
              | error e => simp [read] at lexed
              | ok piece =>
                  obtain ⟨front, text, rfl, length⟩ := exists_front read
                  have shorter : text.length < (c :: (front ++ text)).length := by
                    rw [List.length_cons, List.length_append]
                    omega
                  simp only [read, length, List.take_left, List.drop_left, Bool.and_eq_true,
                    Bool.or_eq_true] at kept lexed
                  obtain ⟨behind, later, rfl⟩ := prepend_eq_ok lexed
                  obtain ⟨others, relexed, same⟩ := inductionHypothesis _ shorter kept.2 later rfl
                  obtain ⟨lowered, other, isLowered, reread, passed, next, sameTokens⟩ :=
                    exists_lowered_piece read length kept.1
                  refine ⟨piece.tokens ++ others, ?_, ?_⟩
                  · rw [lowerHeaders_cons isHeader?, isLowered, tokens_cons, reread]
                    simp only [passed, next, sameTokens, List.drop_left, relexed]
                    rfl
                  · rw [strings_append, strings_append, same]

example : keepsElements .html none "<?php //class :a\n'b'".toList = true := by decide +kernel

end AutoloadIndex.Dialect
