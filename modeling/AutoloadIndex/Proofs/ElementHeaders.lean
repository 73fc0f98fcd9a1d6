import AutoloadIndex.Proofs.ByteRounds
import AutoloadIndex.Proofs.Lookahead
import AutoloadIndex.Proofs.TagLowering

set_option autoImplicit false

/-!
Element headers and what replaces them. A header has no quotes and no marks of comments, so the
lexer passes over it and over what replaces it without a string, if nothing goes on behind it.
-/

namespace AutoloadIndex.Dialect

open Lexeme

section Headers

theorem isNumberChar_ascii {c : Char} (inNumber : isNumberChar c = true) : c.toNat < 0x80 := by
  rcases Nat.lt_or_ge c.toNat 0x80 with ascii | wide
  · exact ascii
  · rw [ByteLexer.uniform_isNumberChar c 'ſ' wide (by decide)] at inNumber
    exact absurd inNumber (by decide)

theorem isAlpha_ascii {c : Char} (letter : c.isAlpha = true) : c.toNat < 0x80 :=
  isNumberChar_ascii (by simp [isNumberChar, Char.isAlphanum, letter])

theorem isWord_of_isAlpha {c : Char} (letter : c.isAlpha = true) : Text.isWord c = true := by
  rw [Text.isWord, if_pos (isAlpha_ascii letter)]
  simp [Text.isAsciiWord, Char.isAlphanum, letter]

theorem isElementChar_of_start {c : Char} (starts : isElementStart c = true) :
    isElementChar c = true := by
  have word : Text.isWord c = true := by
    simp only [isElementStart, Bool.or_eq_true, beq_iff_eq] at starts
    rcases starts with letter | rfl
    · exact isWord_of_isAlpha letter
    · decide
  simp [isElementChar, word]

theorem isNameChar_of_isWord {c : Char} (word : Text.isWord c = true) : isNameChar c = true := by
  unfold Text.isWord at word
  split at word
  case isTrue =>
      simp only [Text.isAsciiWord, Bool.or_eq_true] at word
      rcases word with digit | score <;> simp [isNameChar, *]
  case isFalse wide => simp [isNameChar, Nat.le_of_not_lt wide]

theorem exists_run (p : Char → Bool) (text : List Char) :
    ∃ back, text = text.takeWhile p ++ back ∧ (∀ c ∈ text.takeWhile p, p c = true) ∧
      endsOrStarts (!p ·) back = true := by
  refine ⟨text.dropWhile p, List.takeWhile_append_dropWhile.symm,
    List.all_eq_true.mp List.all_takeWhile, ?_⟩
  have stop := List.head?_dropWhile_not p text
  unfold endsOrStarts
  cases ahead : (text.dropWhile p).head? with
  | none => rfl
  | some d => simpa [ahead] using stop

theorem elementPart_front {cs : List Char} {count : Nat} (found : elementPart cs = some count) :
    ∃ part tail, cs = part ++ tail ∧ part.length = count ∧
      (∀ c ∈ part, isElementChar c = true) ∧ endsOrStarts (!isElementChar ·) tail = true := by
  unfold elementPart at found
  split at found
  case h_1 => cases found
  case h_2 c rest =>
      split at found
      case isFalse => cases found
      case isTrue starts =>
          obtain ⟨tail, split, inRun, stops⟩ := exists_run isElementChar rest
          refine ⟨c :: rest.takeWhile isElementChar, tail, ?_, Option.some.inj found, ?_, stops⟩
          · rw [List.cons_append, ← split]
          · exact List.forall_mem_cons.mpr ⟨isElementChar_of_start starts, inRun⟩

theorem elementParts_front (bound : Nat) {cs : List Char}
    (stops : endsOrStarts (!isElementChar ·) cs = true) :
    ∃ parts tail, cs = parts ++ tail ∧ parts.length = elementParts bound cs ∧
      (∀ c ∈ parts, isElementChar c = true ∨ c = ':') ∧
      endsOrStarts (!isElementChar ·) tail = true := by
  induction bound generalizing cs with
  | zero => exact ⟨[], cs, rfl, rfl, by simp, stops⟩
  | succ bound inductionHypothesis =>
      unfold elementParts
      split
      case h_2 => exact ⟨[], cs, rfl, rfl, by simp, stops⟩
      case h_1 rest =>
          cases found : elementPart rest with
          | none => exact ⟨[], ':' :: rest, rfl, rfl, by simp, stops⟩
          | some count =>
              obtain ⟨part, behind, rfl, rfl, inPart, partStops⟩ := elementPart_front found
              obtain ⟨parts, tail, rfl, length, inParts, tailStops⟩ :=
                inductionHypothesis partStops
              refine ⟨':' :: (part ++ parts), tail, by simp, ?_, ?_, tailStops⟩
              · simp only [List.drop_left, ← length, List.length_cons, List.length_append]
                omega
              · intro c membership
                simp only [List.mem_cons, List.mem_append] at membership
                rcases membership with colon | first | later
                · exact .inr colon
                · exact .inl (inPart c first)
                · exact inParts c later

theorem elementLength_front {cs : List Char} {count : Nat} (found : elementLength cs = some count) :
    ∃ name tail, cs = name ++ tail ∧ name.length = count ∧
      (∀ c ∈ name, isElementChar c = true ∨ c = ':') ∧
      endsOrStarts (!isElementChar ·) tail = true := by
  unfold elementLength at found
  cases first : elementPart cs with
  | none => simp [first] at found
  | some count' =>
      simp only [first, Option.bind_eq_bind, Option.bind_some, Option.pure_def,
        Option.some.injEq] at found
      obtain ⟨part, behind, rfl, rfl, inPart, partStops⟩ := elementPart_front first
      rw [List.drop_left] at found
      obtain ⟨parts, tail, rfl, length, inParts, tailStops⟩ :=
        elementParts_front (part ++ behind).length partStops
      refine ⟨part ++ parts, tail, by simp, ?_, ?_, tailStops⟩
      · rw [List.length_append, length, found]
      · intro c membership
        rcases List.mem_append.mp membership with inFirst | later
        · exact .inl (inPart c inFirst)
        · exact inParts c later

/-- A header in a text: what stays of it, the name behind its colon, and the text behind it. -/
structure Header (text lowered : List Char) (count : Nat) (head name tail : List Char) : Prop where
  whole : text = head ++ ':' :: (name ++ tail)
  isLowered : lowered = head ++ Name.ofElement name
  isCount : count = head.length + 1 + name.length
  starts : text.head?.any Text.isWord = true
  long : 5 < head.length
  inHead : ∀ c ∈ head, isNameChar c = true ∨ Text.isBlank c = true
  inName : ∀ c ∈ name, isElementChar c = true ∨ c = ':'
  stops : endsOrStarts (!isElementChar ·) tail = true

theorem Header.drop {text lowered : List Char} {count : Nat} {head name tail : List Char}
    (isHeader : Header text lowered count head name tail) : text.drop count = tail := by
  rw [isHeader.whole, isHeader.isCount, Nat.add_assoc, List.drop_length_add_append, Nat.add_comm 1,
    List.drop_succ_cons, List.drop_left]

theorem Header.drop_rest {c : Char} {rest lowered : List Char} {count : Nat}
    {head name tail : List Char} (isHeader : Header (c :: rest) lowered count head name tail) :
    rest.drop (count - 1) = tail := by
  have isCount := isHeader.isCount
  rw [← List.drop_succ_cons, Nat.sub_add_cancel (by omega), isHeader.drop]

theorem isWord_of_foldLetter {c : Char} (letter : Text.isWord (foldLetter c) = true) :
    Text.isWord c = true := by
  unfold foldLetter at letter
  split at letter
  case isTrue long => subst long; decide
  case isFalse =>
      unfold Char.toLower at letter
      split at letter
      case isTrue upper =>
          have isUpper : c.isUpper = true := decide_eq_true upper
          exact isWord_of_isAlpha (Bool.or_eq_true_iff.mpr (.inl isUpper))
      case isFalse => exact letter

theorem keywordLength_front {word : String} {cs : List Char} {count : Nat}
    (letters : word.toList.all Text.isWord = true)
    (found : keywordLength word cs = some count) :
    ∃ keyword tail, cs = keyword ++ tail ∧ keyword.length = count ∧ count = word.length ∧
      ∀ c ∈ keyword, Text.isWord c = true := by
  unfold keywordLength at found
  split at found
  case isFalse => cases found
  case isTrue folded =>
      cases found
      refine ⟨cs.take word.length, cs.drop word.length, (List.take_append_drop ..).symm, ?_, rfl,
        ?_⟩
      · simpa [String.length_toList] using congrArg List.length folded
      · intro c membership
        apply isWord_of_foldLetter
        apply List.all_eq_true.mp letters
        rw [← folded]
        exact List.mem_map_of_mem membership

theorem keyword_front {cs : List Char} {count : Nat}
    (found : (keywordLength "class" cs <|> keywordLength "extends" cs) = some count) :
    ∃ keyword tail, cs = keyword ++ tail ∧ keyword.length = count ∧ 5 ≤ count ∧
      ∀ c ∈ keyword, Text.isWord c = true := by
  have cases : keywordLength "class" cs = some count ∨ keywordLength "extends" cs = some count := by
    cases first : keywordLength "class" cs with
    | none => exact .inr (by simpa [first] using found)
    | some other => exact .inl (by simpa [first] using found)
  rcases cases with isClass | isExtends
  · obtain ⟨keyword, tail, whole, length, rfl, named⟩ := keywordLength_front (by decide) isClass
    exact ⟨keyword, tail, whole, length, by decide, named⟩
  · obtain ⟨keyword, tail, whole, length, rfl, named⟩ := keywordLength_front (by decide) isExtends
    exact ⟨keyword, tail, whole, length, by decide, named⟩

theorem elementHeader_cases {text lowered : List Char} {count : Nat}
    (found : elementHeader text = some (lowered, count)) :
    ∃ head name tail, Header text lowered count head name tail := by
  unfold elementHeader at found
  obtain ⟨keyword, isKeyword, found⟩ := Option.bind_eq_some_iff.mp found
  obtain ⟨word, behind, rfl, rfl, longWord, named⟩ := keyword_front isKeyword
  dsimp only at found
  rw [List.drop_left] at found
  obtain ⟨_, isSpaced, found⟩ := Option.bind_eq_some_iff.mp found
  have spaced : 0 < (behind.takeWhile Text.isBlank).length := by
    rcases Nat.eq_zero_or_pos (behind.takeWhile Text.isBlank).length with none | some
    · rw [none] at isSpaced
      cases isSpaced
    · exact some
  have split := ByteLexer.takeWhile_split Text.isBlank behind
  have blank : ∀ c ∈ behind.takeWhile Text.isBlank, Text.isBlank c = true :=
    List.all_eq_true.mp List.all_takeWhile
  rw [List.drop_length_add_append] at found
  generalize behind.takeWhile Text.isBlank = blanks at *
  generalize behind.drop blanks.length = after at *
  subst split
  split at found
  case h_2 => cases found
  case h_1 rest =>
      obtain ⟨length, isLength, found⟩ := Option.bind_eq_some_iff.mp found
      obtain ⟨name, tail, rfl, rfl, inName, stops⟩ := elementLength_front isLength
      obtain ⟨rfl, rfl⟩ := Prod.mk.inj (Option.some.inj found)
      refine ⟨word ++ blanks, name, tail, ?_⟩
      constructor
      case whole => simp
      case isLowered => simp [List.take_length_add_append]
      case isCount => simp
      case starts =>
          cases word with
          | nil => simp at longWord
          | cons c word => simpa using named c List.mem_cons_self
      case long =>
          rw [List.length_append]
          omega
      case inHead =>
          intro c membership
          rcases List.mem_append.mp membership with inWord | inBlanks
          · exact .inl (isNameChar_of_isWord (named c inWord))
          · exact .inr (blank c inBlanks)
      case inName => exact inName
      case stops => exact stops

/-- No header begins right behind another one. -/
theorem elementHeader_of_stops {tail : List Char}
    (stops : endsOrStarts (!isElementChar ·) tail = true) : elementHeader tail = none := by
  rw [Option.eq_none_iff_forall_ne_some]
  intro ⟨lowered, count⟩ found
  obtain ⟨head, name, behind, isHeader⟩ := elementHeader_cases found
  have starts := isHeader.starts
  cases tail with
  | nil => simp at starts
  | cons c rest =>
      have word : Text.isWord c = true := by simpa using starts
      simp [endsOrStarts, isElementChar, word] at stops

end Headers

section Replacing

/-- The header at the start of a text, unless the character in front of it belongs to the word. -/
def headerAt (previous : Option Char) (text : List Char) : Option (List Char × Nat) :=
  if previous.any gluesKeyword then none else elementHeader text

theorem headerAt_glued (text : List Char) : headerAt (some '_') text = none := by
  have glued : gluesKeyword '_' = true := by decide
  simp [headerAt, glued]

/-- The text with all headers replaced, from left to right. What replaces a header ends with a word
character. -/
def lowerHeaders (previous : Option Char) : List Char → List Char
  | [] => []
  | c :: rest =>
    match headerAt previous (c :: rest) with
    | some (text, count) => text ++ lowerHeaders (some '_') (rest.drop (count - 1))
    | none => c :: lowerHeaders (some c) rest
termination_by text => text.length
decreasing_by all_goals simp only [List.length_drop, List.length_cons]; omega

theorem lowerElementsFrom_skip (skip : Nat) (lineStart : Bool) (text : List Char) :
    ∃ nextStart, lowerElementsFrom skip lineStart text =
      lowerElementsFrom 0 nextStart (text.drop skip) := by
  induction skip generalizing lineStart text with
  | zero => exact ⟨lineStart, rfl⟩
  | succ skip inductionHypothesis =>
      cases text with
      | nil => exact ⟨lineStart, by simp [lowerElementsFrom]⟩
      | cons c rest =>
          rw [lowerElementsFrom]
          exact inductionHypothesis (c == '\n') rest

theorem headerAt_cases {previous : Option Char} {text lowered : List Char} {count : Nat}
    (found : headerAt previous text = some (lowered, count)) :
    ∃ head name tail, Header text lowered count head name tail := by
  unfold headerAt at found
  split at found
  case isTrue => cases found
  case isFalse => exact elementHeader_cases found

theorem lowerHeaders_header {previous : Option Char} {text lowered : List Char} {count : Nat}
    {head name tail : List Char} (found : headerAt previous text = some (lowered, count))
    (isHeader : Header text lowered count head name tail) :
    lowerHeaders previous text = lowered ++ lowerHeaders (some '_') tail := by
  cases text with
  | nil => simpa using isHeader.starts
  | cons c rest =>
      rw [lowerHeaders, found]
      simp only [isHeader.drop_rest]

/-- The scan for headers looks one character ahead: it has seen already that none begins here. -/
theorem lowerElementsFrom_eq {text : List Char} {previous : Option Char} {lineStart : Bool}
    (seen : headerAt previous text = none) (atLine : lineStart = true → elementHeader text = none) :
    lowerElementsFrom 0 lineStart text = lowerHeaders previous text := by
  induction size : text.length using Nat.strongRecOn generalizing text previous lineStart with
  | ind _ inductionHypothesis =>
      subst size
      cases text with
      | nil => rw [lowerElementsFrom, lowerHeaders]
      | cons c rest =>
          have here : (if lineStart = true then elementHeader (c :: rest) else none) = none := by
            split
            case isTrue starts => exact atLine starts
            case isFalse => rfl
          have ahead : elementAt lineStart (c :: rest) =
              (headerAt (some c) rest).map fun header => (c :: header.1, header.2 + 1) := by
            unfold elementAt headerAt
            rw [here]
            cases glued : gluesKeyword c with
            | true => simp [glued]
            | false =>
                simp only [glued, Option.any_some, Bool.false_eq_true, if_false]
                rfl
          rw [lowerElementsFrom, lowerHeaders, seen, ahead]
          cases found : headerAt (some c) rest with
          | none =>
              have feed : (c == '\n') = true → elementHeader rest = none := by
                intro breaks
                rw [beq_iff_eq] at breaks
                subst breaks
                have unglued : gluesKeyword '\n' = false := by decide
                simpa [headerAt, unglued] using found
              exact congrArg (c :: ·) (inductionHypothesis _ (by simp) found feed rfl)
          | some header =>
              obtain ⟨lowered, count⟩ := header
              obtain ⟨head, name, tail, isHeader⟩ := headerAt_cases found
              obtain ⟨nextStart, skipped⟩ := lowerElementsFrom_skip count (c == '\n') rest
              have shorter : tail.length < (c :: rest).length := by
                rw [← isHeader.drop, List.length_drop, List.length_cons]
                omega
              have noHeader := elementHeader_of_stops isHeader.stops
              rw [lowerHeaders_header found isHeader]
              simp only [Option.map_some, Nat.add_sub_cancel, skipped, isHeader.drop]
              rw [inductionHypothesis _ shorter (headerAt_glued tail) (fun _ => noHeader) rfl,
                List.cons_append]

theorem lowerElements_eq (source : List Char) :
    lowerElements source = lowerHeaders none source := by
  cases found : headerAt none source with
  | none => exact lowerElementsFrom_eq found fun _ => found
  | some header =>
      obtain ⟨lowered, count⟩ := header
      obtain ⟨head, name, tail, isHeader⟩ := headerAt_cases found
      have noHeader := elementHeader_of_stops isHeader.stops
      rw [lowerHeaders_header found isHeader]
      cases source with
      | nil => simpa using isHeader.starts
      | cons c rest =>
          have here : elementAt true (c :: rest) = some (lowered, count) := by
            have header : elementHeader (c :: rest) = some (lowered, count) := found
            rw [elementAt, if_pos rfl, header]
            rfl
          obtain ⟨nextStart, skipped⟩ := lowerElementsFrom_skip (count - 1) (c == '\n') rest
          rw [lowerElements, lowerElementsFrom, here]
          simp only [skipped, isHeader.drop_rest]
          rw [lowerElementsFrom_eq (headerAt_glued tail) fun _ => noHeader]

theorem lowerHeaders_cons {previous : Option Char} {c : Char} {rest : List Char}
    (seen : headerAt previous (c :: rest) = none) :
    lowerHeaders previous (c :: rest) = c :: lowerHeaders (some c) rest := by
  rw [lowerHeaders, seen]

/-- What stays of a header is longer than what the lexer looks ahead. -/
theorem lowerHeaders_alike (previous : Option Char) (text : List Char) :
    Alike text (lowerHeaders previous text) := by
  have near : ∀ n ≤ 5, ∀ previous text, (lowerHeaders previous text).take n = text.take n := by
    intro n
    induction n with
    | zero => simp
    | succ n inductionHypothesis =>
        intro less previous text
        cases text with
        | nil => rw [lowerHeaders]
        | cons c rest =>
            cases found : headerAt previous (c :: rest) with
            | none =>
                rw [lowerHeaders_cons found, List.take_succ_cons, List.take_succ_cons,
                  inductionHypothesis (by omega)]
            | some header =>
                obtain ⟨lowered, count⟩ := header
                obtain ⟨head, name, tail, isHeader⟩ := headerAt_cases found
                have long := isHeader.long
                rw [lowerHeaders_header found isHeader, isHeader.whole, isHeader.isLowered,
                  List.append_assoc, List.take_append_of_le_length (by omega),
                  List.take_append_of_le_length (by omega)]
  exact (near 5 (Nat.le_refl 5) previous text).symm

theorem getLast?_cons_or (c : Char) (front : List Char) (previous : Option Char) :
    (c :: front).getLast?.or previous = front.getLast?.or (some c) := by
  cases front with
  | nil => rfl
  | cons d front =>
      rw [List.getLast?_cons_cons, List.getLast?_eq_some_getLast (List.cons_ne_nil d front)]
      rfl

def untouched (previous : Option Char) : Nat → List Char → Bool
  | count + 1, c :: rest =>
    (headerAt previous (c :: rest)).isNone && untouched (some c) count rest
  | _, _ => true

theorem lowerHeaders_untouched {previous : Option Char} {front text : List Char}
    (kept : untouched previous front.length (front ++ text) = true) :
    lowerHeaders previous (front ++ text) =
      front ++ lowerHeaders (front.getLast?.or previous) text := by
  induction front generalizing previous with
  | nil => rfl
  | cons c front inductionHypothesis =>
      simp only [List.length_cons, List.cons_append, untouched, Bool.and_eq_true,
        Option.isNone_iff_eq_none] at kept
      rw [List.cons_append, lowerHeaders_cons kept.1, inductionHypothesis kept.2, getLast?_cons_or,
        List.cons_append]

end Replacing

def strings (found : List Token) : List (List Char) :=
  found.filterMap fun token =>
    match token with
    | .str text => some text
    | _ => none

section Regions

def isRegionChar (c : Char) : Bool :=
  isNameChar c || isSpace c || c == '\x0b' || c == ':' || c == '-'

def isInNames (c : Char) : Bool := isRegionChar c && c != '\n'

/-- Characters with which no lexeme goes on that ends a header. -/
def endsRegion (c : Char) : Bool := !isNameChar c && c != '.' && c != '>' && c != ':'

theorem takeWhile_le {p : Char → Bool} (text : List Char) {tail : List Char}
    (stops : endsOrStarts (!p ·) tail = true) :
    ((text ++ tail).takeWhile p).length ≤ text.length := by
  induction text with
  | nil =>
      cases tail with
      | nil => simp
      | cons d tail =>
          have notIn : p d = false := by simpa [endsOrStarts] using stops
          simp [notIn]
  | cons c text inductionHypothesis =>
      rw [List.cons_append, List.takeWhile_cons]
      split
      · exact Nat.succ_le_succ inductionHypothesis
      · exact Nat.zero_le _

theorem codePiece_nameChar {c : Char} (named : isNameChar c = true) (rest : List Char) :
    codePiece c rest =
      if c.isDigit then .ok (.lexeme .number (rest.takeWhile isNumberChar).length)
      else .ok (.lexeme (.ident (c :: rest.takeWhile isNameChar))
        (rest.takeWhile isNameChar).length) := by
  cases digit : c.isDigit with
  | true => exact (CodePiece.number digit).eq
  | false =>
      have starts : isNameStart c = true := by
        simpa [isNameChar, isNameStart, Char.isAlphanum, digit] using named
      exact (CodePiece.name starts).eq

theorem codePiece_region {c : Char} {rest tail : List Char} (first : isRegionChar c = true)
    (inside : ∀ d ∈ rest, isRegionChar d = true) (stops : endsOrStarts endsRegion tail = true) :
    ∃ found, codePiece c (rest ++ tail) = .ok found ∧ found.more ≤ rest.length ∧
      found.next .code = .code ∧ strings found.tokens = [] := by
  have ahead : ∀ d, endsRegion d = false → (rest ++ tail).head? = some d → rest.head? = some d := by
    intro d goesOn head
    cases rest with
    | cons e rest => exact head
    | nil =>
        rw [List.nil_append] at head
        simp [endsOrStarts, head, goesOn] at stops
  have named : endsOrStarts (!isNameChar ·) tail = true := by
    cases tail with
    | nil => rfl
    | cons d tail =>
        simp only [endsOrStarts, List.head?_cons, Option.all_some, endsRegion, Bool.and_eq_true]
          at stops ⊢
        exact stops.1.1.1
  have numbered : endsOrStarts (!isNumberChar ·) tail = true := by
    cases tail with
    | nil => rfl
    | cons d tail =>
        simp only [endsOrStarts, List.head?_cons, Option.all_some, endsRegion, Bool.and_eq_true]
          at stops ⊢
        simp only [isNameChar, isNumberChar] at stops ⊢
        grind
  have other : ∀ d, isRegionChar d = false → c ≠ d := by
    rintro d outside rfl
    exact absurd first (by simp [outside])
  have reads := codePiece_reads c (rest ++ tail)
  generalize codePiece c (rest ++ tail) = outcome at reads ⊢
  cases reads with
  | space | mark => exact ⟨_, rfl, Nat.zero_le _, rfl, rfl⟩
  | number => exact ⟨_, rfl, takeWhile_le rest numbered, rfl, rfl⟩
  | name => exact ⟨_, rfl, takeWhile_le rest named, rfl, rfl⟩
  | doubleColon mark next =>
      obtain ⟨others, rfl⟩ := List.head?_eq_some_iff.mp (ahead ':' (by decide) next)
      exact ⟨_, rfl, by simp [Piece.more], rfl, rfl⟩
  | arrow mark next =>
      obtain ⟨others, rfl⟩ := List.head?_eq_some_iff.mp (ahead '>' (by decide) next)
      exact absurd (inside '>' List.mem_cons_self) (by decide)
  | lineComment opens =>
      rcases opens with ⟨mark, -⟩ | ⟨mark, -⟩ <;> exact absurd mark (other _ (by decide))
  | @quoted quote _ mark | @openQuoted quote _ mark =>
      exact absurd mark (other _ (by cases quote <;> decide))
  | closeTag mark | nullsafe mark | attributes mark | blockComment mark | openComment mark
  | heredoc mark | openHeredoc mark | variableName mark =>
      exact absurd mark (other _ (by decide))

theorem strings_append (first second : List Token) :
    strings (first ++ second) = strings first ++ strings second :=
  List.filterMap_append

/-- The lexer passes over the characters of headers without a string. -/
theorem tokens_region {region tail : List Char} (inside : ∀ c ∈ region, isRegionChar c = true)
    (stops : endsOrStarts endsRegion tail = true) :
    ∃ found, strings found = [] ∧
      tokens .code (region ++ tail) = prepend found (tokens .code tail) := by
  induction size : region.length using Nat.strongRecOn generalizing region with
  | ind _ inductionHypothesis =>
      subst size
      cases region with
      | nil => exact ⟨[], rfl, (prepend_nil _).symm⟩
      | cons c rest =>
          have inRest : ∀ d ∈ rest, isRegionChar d = true :=
            fun d membership => inside d (List.mem_cons_of_mem c membership)
          obtain ⟨piece, read, short, staysCode, noString⟩ :=
            codePiece_region (inside c List.mem_cons_self) inRest stops
          have shorter : (rest.drop piece.more).length < (c :: rest).length := by
            rw [List.length_drop, List.length_cons]
            omega
          obtain ⟨found, none, later⟩ := inductionHypothesis _ shorter
            (fun d membership => inRest d (List.mem_of_mem_drop membership)) rfl
          refine ⟨piece.tokens ++ found, ?_, ?_⟩
          · rw [strings_append, noString, none, List.nil_append]
          · rw [List.cons_append, tokens_cons, Lexeme.piece, read]
            simp only [staysCode, List.drop_append_of_le_length short, later, prepend_prepend]

theorem tokens_html_region {region : List Char} (tail : List Char)
    (inside : ∀ c ∈ region, isRegionChar c = true) :
    tokens .html (region ++ tail) = tokens .html tail := by
  induction region with
  | nil => rfl
  | cons c region inductionHypothesis =>
      have noTag : c ≠ '<' := by
        rintro rfl
        exact absurd (inside '<' List.mem_cons_self) (by decide)
      rw [List.cons_append, tokens_skip (htmlPiece_of_ne _ noTag)]
      exact inductionHypothesis fun d membership => inside d (List.mem_cons_of_mem c membership)

theorem isRegionChar_of_isBlank {c : Char} (blank : Text.isBlank c = true) :
    isRegionChar c = true := by
  by_cases wide : 0x80 ≤ c.toNat
  · simp [isRegionChar, isNameChar, wide]
  · have code : c.toNat = 9 ∨ c.toNat = 10 ∨ c.toNat = 11 ∨ c.toNat = 12 ∨ c.toNat = 13 ∨
        c.toNat = 32 := by
      simp only [Text.isBlank, Bool.or_eq_true, Bool.and_eq_true, decide_eq_true_eq, beq_iff_eq]
        at blank
      omega
    rw [← Char.ofNat_toNat c]
    rcases code with code | code | code | code | code | code <;> rw [code] <;> decide

theorem isRegionChar_of_isNameChar {c : Char} (named : isNameChar c = true) :
    isRegionChar c = true := by
  simp [isRegionChar, named]

variable {text lowered head name tail : List Char} {count : Nat}
  (isHeader : Header text lowered count head name tail)

include isHeader

theorem Header.inHead_region : ∀ c ∈ head, isRegionChar c = true := by
  intro c membership
  rcases isHeader.inHead c membership with named | blank
  · exact isRegionChar_of_isNameChar named
  · exact isRegionChar_of_isBlank blank

theorem Header.names : ∀ c ∈ ':' :: name, isInNames c = true := by
  intro c membership
  rcases List.mem_cons.mp membership with rfl | inName
  · decide
  · rcases isHeader.inName c inName with element | rfl
    · have noBreak : c ≠ '\n' := by
        rintro rfl
        exact absurd element (by decide)
      simp only [isElementChar, Bool.or_eq_true, beq_iff_eq] at element
      rcases element with word | rfl
      · simp [isInNames, isRegionChar_of_isNameChar (isNameChar_of_isWord word), noBreak]
      · decide
    · decide

theorem Header.lowered_names : ∀ c ∈ Name.ofElement name, isInNames c = true := by
  intro c membership
  rw [Name.ofElement] at membership
  simp only [List.mem_append, List.mem_flatMap] at membership
  rcases membership with front | ⟨d, inTrimmed, mangled⟩
  · simp only [List.mem_cons, List.not_mem_nil, or_false] at front
    rcases front with rfl | rfl | rfl | rfl <;> decide
  · have inName : d ∈ name := (List.dropWhile_sublist _).subset inTrimmed
    unfold Name.mangleChar at mangled
    split at mangled
    · obtain rfl : c = '_' := by simpa using mangled
      decide
    split at mangled
    · obtain rfl : c = '_' := by simpa using mangled
      decide
    · obtain rfl := List.mem_singleton.mp mangled
      exact isHeader.names c (List.mem_cons_of_mem ':' inName)

omit isHeader in
theorem isRegionChar_of_isInNames {c : Char} (inName : isInNames c = true) :
    isRegionChar c = true :=
  (Bool.and_eq_true_iff.mp inName).1

theorem Header.region : ∀ c ∈ head ++ ':' :: name, isRegionChar c = true :=
  List.forall_mem_append.mpr ⟨isHeader.inHead_region,
    fun c inName => isRegionChar_of_isInNames (isHeader.names c inName)⟩

theorem Header.lowered_region : ∀ c ∈ lowered, isRegionChar c = true := by
  rw [isHeader.isLowered]
  exact List.forall_mem_append.mpr ⟨isHeader.inHead_region,
    fun c inName => isRegionChar_of_isInNames (isHeader.lowered_names c inName)⟩

end Regions

end AutoloadIndex.Dialect
