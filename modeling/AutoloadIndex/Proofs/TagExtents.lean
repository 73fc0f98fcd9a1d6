import AutoloadIndex.Proofs.ByteStrings
import AutoloadIndex.Proofs.ExtentLocality
import AutoloadIndex.Proofs.TagText

set_option autoImplicit false

/-!
Strings, comments and heredocs end at the same place after open tags are rewritten. The characters
of a tag mean nothing in them, and no end mark has the first character of a tag.
-/

namespace AutoloadIndex.Lexeme

def Frame.shape : Frame → Frame
  | quoted quote _ => quoted quote 0
  | braces depth _ => braces depth 0

def Turn.shape : Turn → Turn
  | closes => closes
  | stays next more => stays next.shape more
  | opens inner more => opens inner.shape more

theorem Turn.eq_closes {turn : Turn} (same : Turn.closes.shape = turn.shape) : turn = .closes := by
  cases turn <;> first | rfl | cases same

theorem Turn.eq_stays {next : Frame} {more : Nat} {turn : Turn}
    (same : (Turn.stays next more).shape = turn.shape) :
    ∃ other, turn = .stays other more ∧ next.shape = other.shape := by
  cases turn with
  | stays other _ =>
      obtain ⟨sameFrame, rfl⟩ := Turn.stays.inj same
      exact ⟨other, rfl, sameFrame⟩
  | closes => cases same
  | opens => cases same

theorem Turn.eq_opens {inner : Frame} {more : Nat} {turn : Turn}
    (same : (Turn.opens inner more).shape = turn.shape) :
    ∃ other, turn = .opens other more ∧ inner.shape = other.shape := by
  cases turn with
  | opens other _ =>
      obtain ⟨sameFrame, rfl⟩ := Turn.opens.inj same
      exact ⟨other, rfl, sameFrame⟩
  | closes => cases same
  | stays => cases same

theorem Frame.fault_shape {top other : Frame} (same : top.shape = other.shape) :
    top.fault.1 = other.fault.1 := by
  cases top <;> cases other <;> first | rfl | cases same

theorem turn_shape {top other : Frame} (same : top.shape = other.shape) (place elsewhere : Nat)
    (c : Char) {rest more : List Char} (head : rest.head? = more.head?) :
    (turn top place c rest).shape = (turn other elsewhere c more).shape := by
  cases top with
  | quoted quote opened =>
      cases other with
      | braces => cases same
      | quoted _ opening =>
          cases same
          unfold turn
          dsimp only
          rw [head]
          repeat' split
          all_goals rfl
  | braces depth opened =>
      cases other with
      | quoted => cases same
      | braces _ opening =>
          cases same
          unfold turn
          dsimp only
          repeat' split
          all_goals rfl

/-- A character of a tag means nothing inside of strings. -/
theorem literalEnd_neutral {c : Char} (neutral : c ∈ ['<', '?', 'h', 'p']) (top : Frame)
    (below : List Frame) (place : Nat) (rest : List Char) :
    literalEnd top below place (c :: rest) = literalEnd top below (place + 1) rest := by
  have stays : turn top place c rest = .stays top 0 := by
    simp only [List.mem_cons, List.not_mem_nil, or_false] at neutral
    cases top with
    | quoted quote opened =>
        rcases neutral with rfl | rfl | rfl | rfl <;> cases quote <;> rfl
    | braces depth opened => rcases neutral with rfl | rfl | rfl | rfl <;> rfl
  rw [literalEnd_cons, stays]
  rfl

/-- A frame is closed by a quote or a brace, from which no tag goes on. -/
theorem turn_closes {top : Frame} {place : Nat} {c : Char} {rest : List Char}
    (closes : turn top place c rest = .closes) :
    c ≠ '<' ∧ c ≠ '?' ∧ Text.isWord c = false := by
  have mark : c ∈ ['\'', '"', '\x60', '}'] := by
    cases top with
    | quoted quote opened =>
        cases quote <;> simp only [turn, Quote.mark] at closes <;> grind
    | braces depth opened => simp only [turn] at closes; grind
  simp only [List.mem_cons, List.not_mem_nil, or_false] at mark
  rcases mark with rfl | rfl | rfl | rfl <;> exact ⟨by decide, by decide, by decide⟩

theorem turn_more (top : Frame) (place : Nat) (c : Char) (rest : List Char) :
    (∀ next more, turn top place c rest = .stays next more → more = 0 ∨ more = 1) ∧
      ∀ inner more, turn top place c rest = .opens inner more → more = 0 ∨ more = 1 := by
  cases top <;> simp only [turn] <;> grind

theorem IsLabel.unmarked {label : List Char} (isLabel : IsLabel label) : '<' ∉ label :=
  fun membership => absurd (isLabel.named _ membership) (by decide)

theorem closingLine_front {label line : List Char} (isLabel : IsLabel label) {more : Nat}
    (closes : closingLine label line = some more) :
    ∃ front rest, line = front ++ rest ∧ front.length = more ∧ '<' ∉ front := by
  obtain ⟨indent, back, rfl, indented, -, rfl⟩ := closingLine_split closes
  refine ⟨indent ++ label, back, rfl, List.length_append, ?_⟩
  rw [List.mem_append, not_or]
  exact ⟨fun membership => absurd (indented _ membership) (by decide), isLabel.unmarked⟩

theorem openingLabel_front {text label : List Char} {head : Nat}
    (opened : openingLabel text = .ok (label, head)) :
    ∃ front rest, text = front ++ rest ∧ front.length = head ∧ '<' ∉ front := by
  have unmarked := (openingLabel_isLabel opened).unmarked
  have split := ByteLexer.takeWhile_split isIndent text
  have noIndent : '<' ∉ text.takeWhile isIndent := Dialect.not_mem_takeWhile (by decide) text
  unfold openingLabel at opened
  dsimp only at opened
  generalize text.takeWhile isIndent = indent at opened split noIndent
  generalize text.drop indent.length = after at opened split
  subst split
  cases quoted : after.head?.filter (fun c => c == '\'' || c == '"') with
  | none =>
      simp only [quoted, Option.isSome_none, Bool.false_eq_true, if_false] at opened
      split at opened
      case isTrue => cases opened
      case isFalse =>
          obtain ⟨rfl, rfl⟩ := Prod.mk.inj (Except.ok.inj opened)
          refine ⟨indent ++ after.takeWhile isNameChar, after.dropWhile isNameChar, ?_,
            List.length_append, ?_⟩
          · rw [List.append_assoc, List.takeWhile_append_dropWhile]
          · simp [noIndent, unmarked]
  | some quote =>
      obtain ⟨isHead, isMark⟩ := Option.filter_eq_some_iff.mp quoted
      obtain ⟨rest, rfl⟩ := List.head?_eq_some_iff.mp isHead
      simp only [quoted, Option.isSome_some, if_true, List.tail_cons] at opened
      split at opened
      case isTrue => cases opened
      case isFalse =>
          split at opened
          case isFalse => cases opened
          case isTrue closes =>
              obtain ⟨rfl, rfl⟩ := Prod.mk.inj (Except.ok.inj opened)
              obtain ⟨more, behind⟩ := List.head?_eq_some_iff.mp closes
              have split := ByteLexer.takeWhile_split isNameChar rest
              rw [behind] at split
              generalize rest.takeWhile isNameChar = label at split unmarked
              subst split
              have noTag : '<' ≠ quote := by
                rintro rfl
                simp at isMark
              refine ⟨indent ++ quote :: (label ++ [quote]), more, by simp, ?_, ?_⟩
              · simp [Nat.add_assoc]
              · simp [noIndent, unmarked, noTag]

end AutoloadIndex.Lexeme

namespace AutoloadIndex.Dialect

open Lexeme

theorem detached_of_ne {c : Char} (noWord : Text.isWord c = false) (noMark : c ≠ '?')
    (text : List Char) : Detached (c :: text) := by
  refine ⟨noWord, ?_⟩
  cases text <;> simp [noMark]

/-- The ends of a string in a text and in its rewritten form, counted from two places: both stand at
the same cut, or both are missing by the same fault. -/
inductive SameEnd (place other : Nat) (text : List Char) :
    Except (LexFault × Nat) Nat → Except (LexFault × Nat) Nat → Prop where
  | found {more lowered : Nat} (cut : SameCut text more lowered) :
      SameEnd place other text (.ok (place + more)) (.ok (other + lowered))
  | missing (fault : LexFault) (opened opening : Nat) :
      SameEnd place other text (.error (fault, opened)) (.error (fault, opening))

namespace SameEnd

variable {place other : Nat} {text : List Char} {first second : Except (LexFault × Nat) Nat}

theorem of_fault {first second : LexFault × Nat} (same : first.1 = second.1) :
    SameEnd place other text (.error first) (.error second) := by
  obtain ⟨fault, opened⟩ := first
  obtain ⟨_, opening⟩ := second
  obtain rfl := same
  exact .missing _ _ _

theorem cons {c : Char} (plain : startsTag (c :: text) = false)
    (same : SameEnd (place + 1) (other + 1) text first second) :
    SameEnd place other (c :: text) first second := by
  cases same with
  | found cut =>
      rw [Nat.add_right_comm, Nat.add_right_comm other]
      exact .found (cut.cons plain)
  | missing fault opened opening => exact .missing fault opened opening

theorem tag (ends : text.head?.any Text.isWord = false)
    (same : SameEnd (place + 4) (other + 5) text first second) :
    SameEnd place other ('<' :: '?' :: 'h' :: 'h' :: text) first second := by
  cases same with
  | found cut =>
      rw [Nat.add_right_comm, Nat.add_right_comm other]
      exact .found (cut.tag ends)
  | missing fault opened opening => exact .missing fault opened opening

end SameEnd

/-- The ends of strings agree in every text that is shorter than the given one. -/
def AgreesBelow (size : Nat) : Prop :=
  ∀ (top top' : Frame) (below below' : List Frame) (place other : Nat) (text : List Char),
    text.length < size → top.shape = top'.shape →
      below.map Frame.shape = below'.map Frame.shape →
      SameEnd place other text (literalEnd top below place text)
        (literalEnd top' below' other (lowerTags text))

theorem AgreesBelow.behind {c : Char} {rest : List Char}
    (agrees : AgreesBelow (c :: rest).length) (plain : startsTag (c :: rest) = false)
    {top top' : Frame} {below below' : List Frame} {place other : Nat}
    (sameTop : top.shape = top'.shape)
    (sameBelow : below.map Frame.shape = below'.map Frame.shape) {more : Nat}
    (few : more = 0 ∨ more = 1) :
    SameEnd place other (c :: rest) (literalEnd top below (place + (more + 1)) (rest.drop more))
      (literalEnd top' below' (other + (more + 1)) ((lowerTags rest).drop more)) := by
  refine .cons plain ?_
  rcases few with rfl | rfl
  · exact agrees top top' below below' (place + 1) (other + 1) rest (by simp) sameTop sameBelow
  · cases rest using tagCases with
    | nil =>
        rw [lowerTags_nil, List.drop_nil, literalEnd_nil, literalEnd_nil]
        exact .of_fault (Frame.fault_shape sameTop)
    | tag rest ends =>
        rw [lowerTags_tag ends, List.drop_one, List.drop_one, List.tail_cons, List.tail_cons]
        iterate 3 rw [literalEnd_neutral (by decide) top]
        iterate 4 rw [literalEnd_neutral (by decide) top']
        exact .tag ends (agrees top top' below below' (place + 5) (other + 6) rest
          (by simp only [List.length_cons]; omega) sameTop sameBelow)
    | cons d rest alsoPlain =>
        rw [lowerTags_cons alsoPlain, List.drop_one, List.drop_one, List.tail_cons, List.tail_cons]
        exact .cons alsoPlain (agrees top top' below below' (place + 2) (other + 2) rest
          (by simp only [List.length_cons]; omega) sameTop sameBelow)

/-- A string ends at the same mark after open tags are rewritten. -/
theorem literalEnd_lowerTags (size : Nat) : AgreesBelow size := by
  induction size with
  | zero => exact fun _ _ _ _ _ _ _ less => absurd less (Nat.not_lt_zero _)
  | succ size inductionHypothesis =>
      intro top top' below below' place other text less sameTop sameBelow
      cases text using tagCases with
      | nil =>
          rw [lowerTags_nil, literalEnd_nil, literalEnd_nil]
          exact .of_fault (Frame.fault_shape sameTop)
      | tag rest ends =>
          rw [lowerTags_tag ends]
          iterate 4 rw [literalEnd_neutral (by decide) top]
          iterate 5 rw [literalEnd_neutral (by decide) top']
          simp only [List.length_cons] at less
          exact .tag ends (inductionHypothesis top top' below below' (place + 4) (other + 5) rest
            (by omega) sameTop sameBelow)
      | cons c rest plain =>
          have agrees : AgreesBelow (c :: rest).length :=
            fun top top' below below' place other text shorter =>
              inductionHypothesis top top' below below' place other text (by omega)
          have sameTurn := turn_shape sameTop place other c (head?_lowerTags rest).symm
          have few := turn_more top place c rest
          rw [lowerTags_cons plain, literalEnd_cons, literalEnd_cons]
          cases isTurn : turn top place c rest with
          | closes =>
              rw [isTurn] at sameTurn
              rw [Turn.eq_closes sameTurn]
              cases below with
              | nil =>
                  obtain rfl := List.map_eq_nil_iff.mp sameBelow.symm
                  obtain ⟨noTag, noMark, noWord⟩ := turn_closes isTurn
                  have ends : Detached ([c] ++ rest) := detached_of_ne noWord noMark rest
                  have unmarked : '<' ∉ [c] := by simpa using noTag.symm
                  exact .found (.here ends unmarked)
              | cons outer others =>
                  obtain ⟨outer', others', rfl, sameOuter, sameOthers⟩ :=
                    List.map_eq_cons_iff.mp sameBelow.symm
                  exact agrees.behind plain sameOuter.symm sameOthers.symm (.inl rfl)
          | stays next more =>
              rw [isTurn] at sameTurn
              obtain ⟨next', isOther, sameNext⟩ := Turn.eq_stays sameTurn
              rw [isOther]
              exact agrees.behind plain sameNext sameBelow (few.1 next more isTurn)
          | opens inner more =>
              rw [isTurn] at sameTurn
              obtain ⟨inner', isOther, sameInner⟩ := Turn.eq_opens sameTurn
              rw [isOther]
              exact agrees.behind plain sameInner (by simp [sameTop, sameBelow])
                (few.2 inner more isTurn)

theorem quotedExtent_lowerTags (quote : Quote) (text : List Char) :
    SameEnd 0 0 text (quotedExtent quote text) (quotedExtent quote (lowerTags text)) := by
  have same : SameEnd 1 1 text (literalEnd (.quoted quote 0) [] 1 text)
      (literalEnd (.quoted quote 0) [] 1 (lowerTags text)) :=
    literalEnd_lowerTags (text.length + 1) _ _ _ _ 1 1 text (Nat.lt_succ_self _) rfl rfl
  unfold quotedExtent
  generalize literalEnd (.quoted quote 0) [] 1 text = first at same ⊢
  generalize literalEnd (.quoted quote 0) [] 1 (lowerTags text) = second at same ⊢
  cases same with
  | @found more lowered cut =>
      have found : SameEnd 0 0 text (.ok (0 + more)) (.ok (0 + lowered)) := .found cut
      simpa [Except.map, Nat.add_comm] using found
  | missing fault opened opening => exact .missing fault opened opening

section Comments

theorem lineComment_lowerTags (text : List Char) :
    SameCut text (lineComment text) (lineComment (lowerTags text)) := by
  induction text using tagInduction with
  | nil => exact .zero ⟨rfl, by decide⟩
  | tag rest ends inductionHypothesis =>
      rw [lowerTags_tag ends]
      simpa [lineComment] using inductionHypothesis.tag ends
  | cons c rest plain inductionHypothesis =>
      rw [lowerTags_cons plain, lineComment, lineComment, head?_lowerTags]
      by_cases stops : c = '\n' ∨ c = '?' ∧ rest.head? = some '>'
      · rw [if_pos stops, if_pos stops]
        have detached : Detached (c :: rest) := by
          rcases stops with rfl | ⟨rfl, closes⟩
          · exact detached_of_ne (by decide) (by decide) rest
          · obtain ⟨more, rfl⟩ := List.head?_eq_some_iff.mp closes
            exact ⟨rfl, by simp⟩
        exact .zero detached
      · rw [if_neg stops, if_neg stops]
        exact inductionHypothesis.cons plain

abbrev SameExtent (text : List Char) : Option Nat → Option Nat → Prop := Option.Rel (SameCut text)

theorem SameExtent.tag {text : List Char} {first second : Option Nat}
    (same : SameExtent text first second) (ends : text.head?.any Text.isWord = false) :
    SameExtent ('<' :: '?' :: 'h' :: 'h' :: text) (first.map (· + 4)) (second.map (· + 5)) := by
  cases same with
  | some cut => exact .some (cut.tag ends)
  | none => exact .none

theorem SameExtent.cons {text : List Char} {first second : Option Nat}
    (same : SameExtent text first second) {c : Char} (plain : startsTag (c :: text) = false) :
    SameExtent (c :: text) (first.map (· + 1)) (second.map (· + 1)) := by
  cases same with
  | some cut => exact .some (cut.cons plain)
  | none => exact .none

theorem blockComment_lowerTags (text : List Char) :
    SameExtent text (blockComment text) (blockComment (lowerTags text)) := by
  induction text using tagInduction with
  | nil => exact .none
  | tag rest ends inductionHypothesis =>
      rw [lowerTags_tag ends]
      simpa [blockComment, Function.comp_def] using inductionHypothesis.tag ends
  | cons c rest plain inductionHypothesis =>
      rw [lowerTags_cons plain, blockComment, blockComment, head?_lowerTags]
      by_cases stops : c = '*' ∧ rest.head? = some '/'
      · rw [if_pos stops, if_pos stops]
        obtain ⟨rfl, closes⟩ := stops
        obtain ⟨more, rfl⟩ := List.head?_eq_some_iff.mp closes
        have ends : Detached (['*', '/'] ++ more) := detached_of_ne (by decide) (by decide) _
        exact .some (.here ends (by decide))
      · rw [if_neg stops, if_neg stops]
        exact inductionHypothesis.cons plain

end Comments

section Heredocs

theorem isPrefixOf_lowerTags {word : List Char} (plain : '<' ∉ word) (text : List Char) :
    word.isPrefixOf (lowerTags text) = word.isPrefixOf text := by
  induction word generalizing text with
  | nil => rfl
  | cons w word inductionHypothesis =>
      rw [List.mem_cons, not_or] at plain
      cases text using tagCases with
      | nil => rw [lowerTags_nil]
      | tag rest ends =>
          have differs : (w == '<') = false := by simpa using Ne.symm plain.1
          simp [lowerTags_tag ends, List.isPrefixOf, differs]
      | cons c rest alsoPlain =>
          rw [lowerTags_cons alsoPlain, List.isPrefixOf, List.isPrefixOf,
            inductionHypothesis plain.2]

theorem closingLine_lowerTags {label : List Char} (isLabel : IsLabel label) (line : List Char) :
    closingLine label (lowerTags line) = closingLine label line := by
  unfold closingLine
  simp only [takeWhile_lowerTags (p := isIndent) (by decide),
    drop_lowerTags (p := isIndent) (by decide)]
  generalize line.drop (line.takeWhile isIndent).length = after
  rw [isPrefixOf_lowerTags isLabel.unmarked]
  by_cases labelled : label.isPrefixOf after = true
  · obtain ⟨behind, rfl⟩ := List.isPrefixOf_iff_prefix.mp labelled
    rw [lowerTags_append_plain isLabel.unmarked, List.drop_left, List.drop_left, endsOrStarts,
      endsOrStarts, head?_lowerTags]
  · rw [if_neg (fun both => labelled both.1), if_neg (fun both => labelled both.1)]

theorem heredocBody_lowerTags {label : List Char} (isLabel : IsLabel label) (text : List Char) :
    SameExtent text (heredocBody label text) (heredocBody label (lowerTags text)) := by
  induction text using tagInduction with
  | nil => exact .none
  | tag rest ends inductionHypothesis =>
      rw [lowerTags_tag ends]
      simpa [heredocBody, Function.comp_def] using inductionHypothesis.tag ends
  | cons c rest plain inductionHypothesis =>
      rw [lowerTags_cons plain, heredocBody, heredocBody, closingLine_lowerTags isLabel]
      cases closes : (if c = '\n' then closingLine label rest else none) with
      | none => exact inductionHypothesis.cons plain
      | some extent =>
          split at closes
          case isFalse => cases closes
          case isTrue breaks =>
              obtain rfl := breaks
              obtain ⟨front, behind, rfl, rfl, unmarked⟩ := closingLine_front isLabel closes
              have ends : Detached ('\n' :: front ++ behind) :=
                detached_of_ne (by decide) (by decide) _
              exact .some (.here ends (by simpa using unmarked))

theorem openingLabel_lowerTags (text : List Char) :
    openingLabel (lowerTags text) = openingLabel text := by
  unfold openingLabel
  simp only [takeWhile_lowerTags (p := isIndent) (by decide),
    drop_lowerTags (p := isIndent) (by decide)]
  generalize text.drop (text.takeWhile isIndent).length = after
  rw [head?_lowerTags]
  cases quoted : after.head?.filter (fun c => c == '\'' || c == '"') with
  | none => simp [takeWhile_lowerTags (p := isNameChar) (by decide)]
  | some quote =>
      obtain ⟨isHead, isMark⟩ := Option.filter_eq_some_iff.mp quoted
      obtain ⟨rest, rfl⟩ := List.head?_eq_some_iff.mp isHead
      have noTag : quote ≠ '<' := by
        rintro rfl
        simp at isMark
      simp only [lowerTags_of_ne _ noTag, Option.isSome_some, if_true, List.tail_cons,
        takeWhile_lowerTags (p := isNameChar) (by decide),
        drop_lowerTags (p := isNameChar) (by decide), head?_lowerTags]

theorem heredocExtent_lowerTags (text : List Char) :
    (∃ fault, heredocExtent text = .error fault ∧
        heredocExtent (lowerTags text) = .error fault) ∨
      ∃ more other, heredocExtent text = .ok more ∧ heredocExtent (lowerTags text) = .ok other ∧
        SameCut text more other := by
  unfold heredocExtent
  rw [openingLabel_lowerTags]
  cases opened : openingLabel text with
  | error fault => exact .inl ⟨fault, rfl, rfl⟩
  | ok opening =>
      obtain ⟨label, head⟩ := opening
      obtain ⟨front, rest, rfl, rfl, unmarked⟩ := openingLabel_front opened
      have same := heredocBody_lowerTags (openingLabel_isLabel opened) rest
      simp only [bind, Except.bind, lowerTags_append_plain unmarked, List.drop_left]
      generalize heredocBody label rest = first at same ⊢
      generalize heredocBody label (lowerTags rest) = second at same ⊢
      cases same with
      | none => exact .inl ⟨_, rfl, rfl⟩
      | some cut => exact .inr ⟨_, _, rfl, rfl, cut.plain_append unmarked⟩

end Heredocs

end AutoloadIndex.Dialect
