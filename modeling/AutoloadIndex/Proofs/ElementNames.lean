import AutoloadIndex.Proofs.Decoding
import AutoloadIndex.Proofs.ElementLowering
import AutoloadIndex.Proofs.GrammarScan
import AutoloadIndex.Proofs.Restatement

set_option autoImplicit false

/-!
The name of a class that is declared for an element. The lowering takes it from the text of the
header. The scan joins lexemes instead and does not know numbers, so it cuts the element name in
front of a digit that follows a hyphen.
-/

namespace AutoloadIndex

namespace Dialect

open Lexeme

inductive NameTail : List Char → Prop where
  | nil : NameTail []
  | char {c : Char} {rest : List Char} (inPart : Text.isAsciiWord c = true ∨ c = '-')
      (later : NameTail rest) : NameTail (c :: rest)
  | colon {c : Char} {rest : List Char} (starts : isElementStart c = true)
      (later : NameTail rest) : NameTail (':' :: c :: rest)

/-- The names `[A-Za-z_][A-Za-z0-9_-]*(:[A-Za-z_][A-Za-z0-9_-]*)*`. -/
inductive ElementName : List Char → Prop where
  | name {first : Char} {rest : List Char} (starts : isElementStart first = true)
      (later : NameTail rest) : ElementName (first :: rest)

/-- The name up to its first hyphen in front of a digit. -/
def beforeNumber : List Char → List Char
  | [] => []
  | c :: rest =>
    if c = '-' ∧ rest.head?.any Char.isDigit then [c] else c :: beforeNumber rest

theorem isAsciiWord_of_start {c : Char} (starts : isElementStart c = true) :
    Text.isAsciiWord c = true := by
  simp only [isElementStart, Bool.or_eq_true, beq_iff_eq] at starts
  rcases starts with letter | rfl
  · simp [Text.isAsciiWord, Char.isAlphanum, letter]
  · decide

theorem isDigit_of_start {c : Char} (starts : isElementStart c = true) : c.isDigit = false := by
  simp only [isElementStart, Bool.or_eq_true] at starts
  exact notDigit_of_isNameStart (by rcases starts with letter | score <;> simp [isNameStart, *])

theorem isNumberChar_of_ascii {c : Char} (word : Text.isAsciiWord c = true) :
    isNumberChar c = true := by
  simp only [Text.isAsciiWord, Bool.or_eq_true] at word
  rcases word with digit | score <;> simp [isNumberChar, *]

theorem isWord_of_ascii {c : Char} (word : Text.isAsciiWord c = true) : Text.isWord c = true := by
  rw [Text.isWord, if_pos (isNumberChar_ascii (isNumberChar_of_ascii word)), word]

section Lowering

variable {rest behind : List Char}

theorem elementParts_tail (tail : NameTail rest)
    (ends : endsOrStarts (fun c => !isElementChar c && c != ':') behind = true) {bound : Nat}
    (enough : rest.length ≤ bound) :
    ((rest ++ behind).takeWhile isElementChar).length +
      elementParts bound ((rest ++ behind).drop ((rest ++ behind).takeWhile isElementChar).length) =
        rest.length := by
  induction tail generalizing bound with
  | nil =>
      cases behind with
      | nil => cases bound <;> rfl
      | cons d behind =>
          have noPart : isElementChar d = false ∧ d ≠ ':' := by
            simpa [endsOrStarts] using ends
          cases bound <;> simp [elementParts, noPart]
  | @char c rest inPart later inductionHypothesis =>
      have element : isElementChar c = true := by
        rcases inPart with word | rfl
        · simp [isElementChar, isWord_of_ascii word]
        · decide
      rw [List.cons_append, List.takeWhile_cons_of_pos element]
      simp only [List.length_cons, List.drop_succ_cons] at enough ⊢
      rw [← inductionHypothesis (Nat.le_of_succ_le enough)]
      omega
  | @colon c rest starts later inductionHypothesis =>
      have noElement : ¬ isElementChar ':' = true := by decide
      rw [List.cons_append, List.takeWhile_cons_of_neg noElement]
      cases bound with
      | zero => simp at enough
      | succ bound =>
          simp only [List.length_cons, List.length_nil, List.drop_zero, List.cons_append,
            elementParts, elementPart, starts, if_true, List.drop_succ_cons] at enough ⊢
          rw [← inductionHypothesis (show rest.length ≤ bound by omega)]
          omega

theorem elementLength_name {name : List Char} (isName : ElementName name)
    (ends : endsOrStarts (fun c => !isElementChar c && c != ':') behind = true) :
    elementLength (name ++ behind) = some name.length := by
  obtain @⟨first, rest, starts, later⟩ := isName
  have parts := elementParts_tail later ends
    (show rest.length ≤ (first :: rest ++ behind).length by simp; omega)
  simp only [List.cons_append] at parts
  simp only [elementLength, List.cons_append, elementPart, starts, if_true, Option.bind_eq_bind,
    Option.bind_some, List.drop_succ_cons, Option.pure_def, List.length_cons, ← parts]
  congr 1
  omega

end Lowering

/-- The lexemes of a text that continues an element name: marks, and between them words and
numbers. -/
inductive NameLexemes : Nat → List Char → List Lexeme → Prop where
  | nil {offset : Nat} : NameLexemes offset [] []
  | mark {offset : Nat} {c : Char} {text : List Char} {lexemes : List Lexeme}
      (isMark : c = '-' ∨ c = ':' ∧ text.head?.any Char.isDigit = false)
      (later : NameLexemes (offset + 1) text lexemes) :
      NameLexemes offset (c :: text) (⟨.punct c, offset, offset + 1⟩ :: lexemes)
  | word {offset : Nat} {c : Char} {front text : List Char} {lexemes : List Lexeme}
      (inWord : ∀ d ∈ c :: front, Text.isAsciiWord d = true) (noDigit : c.isDigit = false)
      (stops : endsOrStarts (!Text.isAsciiWord ·) text = true)
      (later : NameLexemes (offset + Text.width (c :: front)) text lexemes) :
      NameLexemes offset (c :: front ++ text)
        (⟨.ident (c :: front), offset, offset + Text.width (c :: front)⟩ :: lexemes)
  | number {offset : Nat} {c : Char} {front text : List Char} {lexemes : List Lexeme}
      (inWord : ∀ d ∈ c :: front, Text.isAsciiWord d = true) (digit : c.isDigit = true)
      (stops : endsOrStarts (!Text.isAsciiWord ·) text = true)
      (later : NameLexemes (offset + Text.width (c :: front)) text lexemes) :
      NameLexemes offset (c :: front ++ text)
        (⟨.number, offset, offset + Text.width (c :: front)⟩ :: lexemes)

theorem isAsciiWord_of_isDigit {c : Char} (digit : c.isDigit = true) :
    Text.isAsciiWord c = true := by
  simp [Text.isAsciiWord, Char.isAlphanum, digit]

theorem beforeNumber_word {word text : List Char}
    (inWord : ∀ c ∈ word, Text.isAsciiWord c = true) :
    beforeNumber (word ++ text) = word ++ beforeNumber text := by
  induction word with
  | nil => rfl
  | cons c word inductionHypothesis =>
      rw [List.forall_mem_cons] at inWord
      have noHyphen : c ≠ '-' := by
        rintro rfl
        exact absurd inWord.1 (by decide)
      rw [List.cons_append, beforeNumber, if_neg (fun both => noHyphen both.1),
        inductionHypothesis inWord.2, List.cons_append]

namespace NameLexemes

variable {offset : Nat} {text : List Char} {lexemes : List Lexeme}

theorem elementText (named : NameLexemes offset text lexemes) {more : List Lexeme}
    (apart : ∀ lexeme ∈ more.head?, lexeme.start ≠ offset + Text.width text) :
    FactScan.State.elementText offset (lexemes ++ more) =
      if text.head?.any Char.isDigit then [] else beforeNumber text := by
  induction named with
  | @nil offset =>
      cases more with
      | nil => rfl
      | cons lexeme more =>
          have gap := apart lexeme rfl
          simp only [Text.width_nil, Nat.add_zero] at gap
          simp [FactScan.State.elementText, gap, beforeNumber]
  | @mark offset c text lexemes isMark later inductionHypothesis =>
      have narrow : c.utf8Size = 1 := by
        rcases isMark with rfl | ⟨rfl, -⟩ <;> rfl
      have joined := inductionHypothesis (by simpa [narrow, Nat.add_assoc] using apart)
      have isJoined : c = ':' ∨ c = '-' := by
        rcases isMark with rfl | ⟨rfl, -⟩ <;> simp
      have noDigit : c.isDigit = false := by
        rcases isMark with rfl | ⟨rfl, -⟩ <;> rfl
      simp only [List.cons_append, FactScan.State.elementText, ne_eq, not_true, if_false, isJoined,
        if_true, joined, List.head?_cons, Option.any_some, noDigit, beforeNumber]
      rcases isMark with rfl | ⟨rfl, noNumber⟩
      · split <;> simp [*]
      · simp [noNumber]
  | @word offset c front text lexemes inWord noDigit stops later inductionHypothesis =>
      have joined := inductionHypothesis
        (by simpa only [Text.width_append, ← Nat.add_assoc] using apart)
      have noNumber : text.head?.any Char.isDigit = false := by
        cases text with
        | nil => rfl
        | cons d text =>
            have noWord : Text.isAsciiWord d = false := by simpa [endsOrStarts] using stops
            rw [List.head?_cons, Option.any_some, Bool.eq_false_iff]
            exact fun digit => absurd (noWord.symm.trans (isAsciiWord_of_isDigit digit)) (by simp)
      rw [beforeNumber_word inWord]
      simpa [FactScan.State.elementText, noNumber, noDigit] using joined
  | number inWord digit stops later inductionHypothesis =>
      simp [FactScan.State.elementText, digit]

theorem flat (named : NameLexemes offset text lexemes) :
    FactScan.Flat (lexemes.map Lexeme.token) := by
  induction named with
  | nil => simp [FactScan.Flat]
  | mark isMark later inductionHypothesis =>
      refine FactScan.flat_cons.mpr ⟨?_, inductionHypothesis⟩
      rcases isMark with rfl | ⟨rfl, -⟩ <;> simp [Token.isPunct]
  | word inWord noDigit stops later inductionHypothesis =>
      exact FactScan.flat_cons.mpr ⟨by simp [Token.isPunct], inductionHypothesis⟩
  | number inWord digit stops later inductionHypothesis =>
      exact FactScan.flat_cons.mpr ⟨by simp [Token.isPunct], inductionHypothesis⟩

/-- No word of a name starts a statement, as each one follows a mark. -/
theorem quiet (named : NameLexemes offset text lexemes) {more : List Token}
    (alsoQuiet : ∀ previous, FactScan.Quiet previous more) {previous : Option Token}
    (behindMark : text.head?.any Text.isAsciiWord = true → startsStatement previous = false) :
    FactScan.Quiet previous (lexemes.map Lexeme.token ++ more) := by
  induction named generalizing previous with
  | nil => exact alsoQuiet previous
  | @mark offset c text lexemes isMark later inductionHypothesis =>
      have level : FactScan.Brackets.braces.step 0 (.punct c) = 0 := by
        rcases isMark with rfl | ⟨rfl, -⟩ <;> rfl
      refine ⟨fun _ => by simp [FactScan.staysQuiet, Token.name?], ?_⟩
      rw [level]
      refine inductionHypothesis fun _ => ?_
      rcases isMark with rfl | ⟨rfl, -⟩ <;> rfl
  | @word offset c front text lexemes inWord noDigit stops later inductionHypothesis =>
      have first : Text.isAsciiWord c = true := inWord c List.mem_cons_self
      refine ⟨fun _ => by simp [FactScan.staysQuiet, behindMark (by simp [first])], ?_⟩
      refine inductionHypothesis fun starts => absurd stops ?_
      cases text <;> simp_all [endsOrStarts]
  | @number offset c front text lexemes inWord digit stops later inductionHypothesis =>
      refine ⟨fun _ => by simp [FactScan.staysQuiet, Token.name?], ?_⟩
      refine inductionHypothesis fun starts => absurd stops ?_
      cases text <;> simp_all [endsOrStarts]

end NameLexemes

section Lexing

theorem NameTail.behind_char {c : Char} {rest : List Char} (tail : NameTail (c :: rest))
    (word : Text.isAsciiWord c = true) : NameTail rest := by
  cases tail with
  | char inPart later => exact later
  | colon starts later => exact absurd word (by decide)

theorem NameTail.behind_word {word text : List Char} (tail : NameTail (word ++ text))
    (inWord : ∀ c ∈ word, Text.isAsciiWord c = true) : NameTail text := by
  induction word with
  | nil => exact tail
  | cons c word inductionHypothesis =>
      rw [List.forall_mem_cons] at inWord
      exact inductionHypothesis (tail.behind_char inWord.1) inWord.2

theorem NameTail.next {text : List Char} (tail : NameTail text) (behind : List Char) :
    ∃ c rest, text ++ ' ' :: behind = c :: rest ∧
      (Text.isAsciiWord c = true ∧ text.head? = some c ∨ c = '-' ∨ c = ':' ∨ c = ' ') := by
  cases tail with
  | nil => exact ⟨_, _, rfl, by simp⟩
  | char inPart later =>
      refine ⟨_, _, rfl, ?_⟩
      rcases inPart with word | rfl
      · exact .inl ⟨word, rfl⟩
      · simp
  | colon starts later => exact ⟨_, _, rfl, by simp⟩

theorem marks_notName : ∀ c ∈ ['-', ':', ' '], isNameChar c = false := by
  simp only [List.forall_mem_cons]
  exact ⟨rfl, rfl, rfl, List.forall_mem_nil _⟩

theorem marks_notNumber : ∀ c ∈ ['-', ':', ' '], isNumberChar c = false := by
  simp only [List.forall_mem_cons]
  exact ⟨rfl, rfl, rfl, List.forall_mem_nil _⟩

theorem takeWhile_word {p : Char → Bool} {word text behind : List Char}
    (inWord : ∀ c ∈ word, p c = true) (tail : NameTail text)
    (stops : endsOrStarts (!Text.isAsciiWord ·) text = true)
    (noMark : ∀ c ∈ ['-', ':', ' '], p c = false) :
    (word ++ (text ++ ' ' :: behind)).takeWhile p = word := by
  obtain ⟨c, rest, whole, next⟩ := tail.next behind
  have isMark : p c = false := by
    apply noMark
    rcases next with ⟨isWord, first⟩ | mark
    · simp [endsOrStarts, first, isWord] at stops
    · simpa using mark
  rw [List.takeWhile_append_of_pos inWord, whole, List.takeWhile_cons_of_neg (by simp [isMark]),
    List.append_nil]

theorem piece_word {c : Char} {front text : List Char} (isWord : Text.isAsciiWord c = true)
    (inWord : ∀ d ∈ front, Text.isAsciiWord d = true) (tail : NameTail text)
    (stops : endsOrStarts (!Text.isAsciiWord ·) text = true) (behind : List Char) :
    piece .code c (front ++ (text ++ ' ' :: behind)) =
      if c.isDigit then .ok (.lexeme .number front.length)
      else .ok (.lexeme (.ident (c :: front)) front.length) := by
  have named : ∀ d ∈ front, isNameChar d = true :=
    fun d inFront => isNameChar_of_isWord (isWord_of_ascii (inWord d inFront))
  have numbered : ∀ d ∈ front, isNumberChar d = true :=
    fun d inFront => isNumberChar_of_ascii (inWord d inFront)
  rw [piece, codePiece_nameChar (isNameChar_of_isWord (isWord_of_ascii isWord)),
    takeWhile_word named tail stops marks_notName,
    takeWhile_word numbered tail stops marks_notNumber]

theorem piece_hyphen {text : List Char} (tail : NameTail text) (behind : List Char) :
    piece .code '-' (text ++ ' ' :: behind) = .ok (.lexeme (.punct '-') 0) := by
  obtain ⟨d, more, whole, next⟩ := tail.next behind
  have noArrow : d ≠ '>' := by
    rintro rfl
    simp [Text.isAsciiWord] at next
  simp [piece, codePiece, isSpace, isNameStart, whole, noArrow]

theorem piece_colon {c : Char} (starts : isElementStart c = true) (behind : List Char) :
    piece .code ':' (c :: behind) = .ok (.lexeme (.punct ':') 0) := by
  have noColon : c ≠ ':' := by
    rintro rfl
    exact absurd starts (by decide)
  simp [piece, codePiece, isSpace, isNameStart, noColon]

theorem exists_nameLexemes {text : List Char} (tail : NameTail text) (behind : List Char)
    (offset : Nat) : ∃ lexemes, NameLexemes offset text lexemes ∧
      Reaches (' ' :: behind) .code offset text lexemes .code := by
  induction size : text.length using Nat.strongRecOn generalizing text offset with
  | ind _ inductionHypothesis =>
      subst size
      cases tail with
      | nil => exact ⟨[], .nil, .here⟩
      | @colon c rest starts later =>
          have word := isAsciiWord_of_start starts
          obtain ⟨lexemes, named, reaches⟩ :=
            inductionHypothesis _ (by simp) (.char (.inl word) later) (offset + 1) rfl
          have noDigit := isDigit_of_start starts
          have read : piece .code ':' ([] ++ (c :: rest ++ ' ' :: behind)) =
              .ok (.lexeme (.punct ':') 0) := piece_colon starts _
          exact ⟨_, .mark (.inr ⟨rfl, by simp [noDigit]⟩) named, .lexeme read reaches⟩
      | @char c rest inPart later =>
          rcases inPart with isWord | rfl
          · obtain ⟨text, split, inWord, stops⟩ := exists_run Text.isAsciiWord rest
            generalize rest.takeWhile Text.isAsciiWord = front at *
            subst split
            have behindWord := later.behind_word inWord
            have shorter : text.length < (c :: (front ++ text)).length := by
              rw [List.length_cons, List.length_append]
              omega
            obtain ⟨lexemes, names, reaches⟩ := inductionHypothesis _ shorter behindWord
              (offset + Text.width (c :: front)) rfl
            have read := piece_word isWord inWord behindWord stops behind
            have whole : ∀ d ∈ c :: front, Text.isAsciiWord d = true :=
              List.forall_mem_cons.mpr ⟨isWord, inWord⟩
            cases digit : c.isDigit with
            | true =>
                rw [digit, if_pos rfl] at read
                exact ⟨_, .number whole digit stops names, .lexeme read reaches⟩
            | false =>
                rw [digit, if_neg (by decide)] at read
                exact ⟨_, .word whole digit stops names, .lexeme read reaches⟩
          · obtain ⟨lexemes, named, reaches⟩ :=
              inductionHypothesis _ (by simp) later (offset + 1) rfl
            have read : piece .code '-' ([] ++ (rest ++ ' ' :: behind)) =
                .ok (.lexeme (.punct '-') 0) := piece_hyphen later behind
            exact ⟨_, .mark (.inl rfl) named, .lexeme read reaches⟩

end Lexing

/-- The tag of Hack, a line break and `class :name`, in front of an empty body. -/
def elementFile (name : List Char) : List Char :=
  ['<', '?', 'h', 'h', '\n', 'c', 'l', 'a', 's', 's', ' ', ':'] ++ (name ++ [' ', '{', '}'])

def classFile (name : List Char) : List Char :=
  ['<', '?', 'p', 'h', 'p', '\n', 'c', 'l', 'a', 's', 's', ' '] ++ (name ++ [' ', '{', '}'])

def emptyBody (offset : Nat) : List Lexeme :=
  [⟨.punct '{', offset + 1, offset + 2⟩, ⟨.punct '}', offset + 2, offset + 3⟩]

theorem tokens_emptyBody (offset : Nat) :
    (emptyBody offset).map Lexeme.token = [.punct '{', .punct '}'] := rfl

theorem reaches_emptyBody (offset : Nat) :
    Reaches [] .code offset [' ', '{', '}'] (emptyBody offset) .code := by
  have space : piece .code ' ' ([] ++ (['{', '}'] ++ [])) = .ok (.gap 0) := rfl
  have opening : piece .code '{' ([] ++ (['}'] ++ [])) = .ok (.lexeme (.punct '{') 0) := rfl
  have closing : piece .code '}' ([] ++ ([] ++ [])) = .ok (.lexeme (.punct '}') 0) := rfl
  exact .gap space (.lexeme opening (.lexeme closing .here))

theorem NameLexemes.behind_colon {offset : Nat} {text : List Char} {lexemes : List Lexeme}
    (named : NameLexemes offset (':' :: text) lexemes) :
    ∃ rest, lexemes = ⟨.punct ':', offset, offset + 1⟩ :: rest ∧
      NameLexemes (offset + 1) text rest := by
  generalize whole : ':' :: text = all at named
  cases named with
  | nil => cases whole
  | mark isMark later =>
      cases whole
      exact ⟨_, rfl, later⟩
  | word inWord =>
      obtain ⟨rfl, -⟩ := List.cons.inj whole
      exact absurd (inWord ':' List.mem_cons_self) (by decide)
  | number inWord =>
      obtain ⟨rfl, -⟩ := List.cons.inj whole
      exact absurd (inWord ':' List.mem_cons_self) (by decide)

theorem reaches_keyword (offset : Nat) (behind : List Char) :
    Reaches behind .code offset ['\n', 'c', 'l', 'a', 's', 's', ' ']
      [⟨.ident ['c', 'l', 'a', 's', 's'], offset + 1, offset + 6⟩] .code := by
  have lineBreak : piece .code '\n' ([] ++ (['c', 'l', 'a', 's', 's', ' '] ++ behind)) =
      .ok (.gap 0) := rfl
  have word : piece .code 'c' (['l', 'a', 's', 's'] ++ ([' '] ++ behind)) =
      .ok (.lexeme (.ident ['c', 'l', 'a', 's', 's']) 4) := rfl
  have space : piece .code ' ' ([] ++ ([] ++ behind)) = .ok (.gap 0) := rfl
  exact .gap lineBreak (.lexeme word (.gap space .here))

theorem lex_elementFile {name : List Char} (isName : ElementName name) :
    ∃ lexemes, NameLexemes 11 (':' :: name) (⟨.punct ':', 11, 12⟩ :: lexemes) ∧
      NameLexemes 12 name lexemes ∧
      lex .html (elementFile name) =
        .ok (⟨.openTag, 0, 4⟩ :: ⟨.ident ['c', 'l', 'a', 's', 's'], 5, 10⟩ ::
          ⟨.punct ':', 11, 12⟩ :: (lexemes ++ emptyBody (11 + Text.width (':' :: name)))) := by
  obtain @⟨first, rest, starts, later⟩ := isName
  obtain ⟨all, named, reaches⟩ := exists_nameLexemes (.colon starts later) ['{', '}'] 11
  obtain ⟨lexemes, rfl, inner⟩ := named.behind_colon
  refine ⟨lexemes, named, inner, ?_⟩
  have body := reaches_emptyBody (11 + Text.width (':' :: first :: rest))
  have declared := (reaches_keyword 4 _).append (reaches.append body)
  have read : piece .html '<' (['?', 'h', 'h'] ++ ('\n' :: ['c', 'l', 'a', 's', 's', ' '] ++
      (':' :: first :: rest ++ [' ', '{', '}']) ++ [])) = .ok (.lexeme .openTag 3) := rfl
  have whole : Reaches [] .html 0 (elementFile (first :: rest)) _ .code :=
    @Reaches.lexeme [] .html .code 0 '<' ['?', 'h', 'h'] _ .openTag _ read declared
  exact whole.lex

theorem beforeNumber_name {name : List Char} (isName : ElementName name) :
    ∃ first rest, name = first :: rest ∧ isElementStart first = true ∧
      beforeNumber name = first :: beforeNumber rest := by
  obtain @⟨first, rest, starts, later⟩ := isName
  refine ⟨first, rest, rfl, starts, if_neg ?_⟩
  rintro ⟨rfl, -⟩
  exact absurd starts (by decide)

theorem scan_elementFile {name : List Char} (isName : ElementName name) {lexemes : List Lexeme}
    (named : NameLexemes 11 (':' :: name) (⟨.punct ':', 11, 12⟩ :: lexemes))
    (inner : NameLexemes 12 name lexemes) :
    FactScan.scan {} (⟨.openTag, 0, 4⟩ :: ⟨.ident ['c', 'l', 'a', 's', 's'], 5, 10⟩ ::
        ⟨.punct ':', 11, 12⟩ :: (lexemes ++ emptyBody (11 + Text.width (':' :: name)))) =
      .ok [⟨.classLike, .ofList (Name.ofElement (beforeNumber name))⟩] := by
  have joined : FactScan.State.elementText 12
      (lexemes ++ emptyBody (11 + Text.width (':' :: name))) = beforeNumber name := by
    rw [inner.elementText]
    · obtain ⟨first, rest, rfl, starts, -⟩ := beforeNumber_name isName
      simp [isDigit_of_start starts]
    · intro lexeme isFirst
      obtain rfl := Option.some.inj isFirst
      have colon : Text.width (':' :: name) = 1 + Text.width name := rfl
      simp only [colon]
      omega
  have declared : FactScan.State.declared { previous := some ⟨.openTag, 0, 4⟩ } .classDecl
      (⟨.punct ':', 11, 12⟩ :: (lexemes ++ emptyBody (11 + Text.width (':' :: name)))) =
        some ⟨.classLike, .ofList (Name.ofElement (beforeNumber name))⟩ := by
    obtain ⟨first, rest, rfl, -, nonempty⟩ := beforeNumber_name isName
    simp only [FactScan.State.declared, punctAhead, ahead, List.getElem?_cons_zero, Option.map_some,
      Option.any_some, Token.isPunct, FactScan.State.elementName, joined, nonempty]
    simp [FactScan.State.qualified, Name.qualify, Name.relative, Text.trimStart, Name.ofElement,
      Name.separator]
  have balanced : FactScan.Balanced ((⟨.punct ':', 11, 12⟩ :: (lexemes ++
      emptyBody (11 + Text.width (':' :: name)))).map Lexeme.token) := by
    rw [← List.cons_append, List.map_append, tokens_emptyBody]
    exact (FactScan.balanced_of_flat named.flat).append (by decide)
  have quiet : FactScan.Quiet (some (.ident ['c', 'l', 'a', 's', 's'])) ((⟨.punct ':', 11, 12⟩ ::
      (lexemes ++ emptyBody (11 + Text.width (':' :: name)))).map Lexeme.token) := by
    rw [← List.cons_append, List.map_append, tokens_emptyBody]
    refine named.quiet (fun previous => ?_) (fun _ => by decide)
    exact FactScan.outside_of_no_keyword (by decide) previous 0
  have isClass : FactScan.State.keyword? { previous := some ⟨.openTag, 0, 4⟩ }
      (.ident ['c', 'l', 'a', 's', 's']) = some .classDecl := by decide +kernel
  have passed := @FactScan.scan_run [] _ 0
    { previous := some ⟨.ident ['c', 'l', 'a', 's', 's'], 5, 10⟩ } rfl rfl balanced quiet []
  rw [FactScan.scan_step _ rfl rfl rfl, FactScan.scan_keyword _ rfl isClass (by decide), declared]
  rw [List.append_nil] at passed
  simp only [FactScan.State.enter]
  rw [passed]
  rfl

theorem startsInCode_elementFile (path : Path) (name : List Char) :
    startsInCode path (elementFile name) = false := by
  have opened : ['<', '?'].isPrefixOf
      ((afterShebang (elementFile name)).dropWhile Text.isBlank) = true := rfl
  rw [startsInCode, opened]
  simp

theorem NameTail.inside {text : List Char} (tail : NameTail text) :
    ∀ c ∈ text, Text.isAsciiWord c = true ∨ c = '-' ∨ c = ':' := by
  induction tail with
  | nil => simp
  | char inPart later inductionHypothesis =>
      rw [List.forall_mem_cons]
      refine ⟨?_, inductionHypothesis⟩
      rcases inPart with word | rfl <;> simp [*]
  | colon starts later inductionHypothesis =>
      rw [List.forall_mem_cons, List.forall_mem_cons]
      exact ⟨by simp, .inl (isAsciiWord_of_start starts), inductionHypothesis⟩

theorem ElementName.tail {name : List Char} (isName : ElementName name) : NameTail name := by
  cases isName with
  | name starts later => exact .char (.inl (isAsciiWord_of_start starts)) later

theorem ofElement_word {name : List Char} (tail : NameTail name) :
    ∀ c ∈ Name.ofElement name, Text.isAsciiWord c = true := by
  intro c membership
  simp only [Name.ofElement, List.mem_append, List.mem_flatMap] at membership
  rcases membership with front | ⟨d, inTrimmed, mangled⟩
  · simp only [List.mem_cons, List.not_mem_nil, or_false] at front
    rcases front with rfl | rfl | rfl | rfl <;> decide
  · have inName := tail.inside d ((List.dropWhile_sublist _).subset inTrimmed)
    unfold Name.mangleChar at mangled
    split at mangled
    · obtain rfl : c = '_' := by simpa using mangled
      decide
    split at mangled
    · obtain rfl : c = '_' := by simpa using mangled
      decide
    · obtain rfl := List.mem_singleton.mp mangled
      simpa [*] using inName

theorem elementHeader_class {name : List Char} (isName : ElementName name) :
    elementHeader (['c', 'l', 'a', 's', 's', ' ', ':'] ++ (name ++ [' ', '{', '}'])) =
      some (['c', 'l', 'a', 's', 's', ' '] ++ Name.ofElement name, 7 + name.length) := by
  have length : elementLength (name ++ [' ', '{', '}']) = some name.length :=
    elementLength_name isName (by decide)
  have keyword : ∀ text, keywordLength "class" (['c', 'l', 'a', 's', 's', ' ', ':'] ++ text) =
      some 5 := fun _ => rfl
  have blank : ∀ text, ((' ' :: ':' :: text).takeWhile Text.isBlank).length = 1 := fun _ => rfl
  unfold elementHeader
  rw [keyword]
  simp [blank, length, guard]

theorem lowerElements_elementFile {name : List Char} (isName : ElementName name) :
    lowerElements (['<', '?', 'p', 'h', 'p', '\n'] ++
        (['c', 'l', 'a', 's', 's', ' ', ':'] ++ (name ++ [' ', '{', '}']))) =
      classFile (Name.ofElement name) := by
  have kept : ∀ text, untouched none 6 (['<', '?', 'p', 'h', 'p', '\n'] ++
      (['c', 'l', 'a', 's', 's', ' ', ':'] ++ text)) = true := fun _ => rfl
  have body : lowerHeaders (some '_') [' ', '{', '}'] = [' ', '{', '}'] := by
    have same := @lowerHeaders_untouched (some '_') [' ', '{', '}'] [] (by decide)
    rwa [lowerHeaders, List.append_nil] at same
  have found : headerAt (some '\n')
      (['c', 'l', 'a', 's', 's', ' ', ':'] ++ (name ++ [' ', '{', '}'])) = _ :=
    elementHeader_class isName
  have lowered : lowerHeaders (some '\n')
      (['c', 'l', 'a', 's', 's', ' ', ':'] ++ (name ++ [' ', '{', '}'])) =
        ['c', 'l', 'a', 's', 's', ' '] ++ Name.ofElement name ++ [' ', '{', '}'] := by
    have behind : (['l', 'a', 's', 's', ' ', ':'] ++ (name ++ [' ', '{', '}'])).drop
        (7 + name.length - 1) = [' ', '{', '}'] := by
      rw [Nat.add_comm, ← List.append_assoc]
      exact List.drop_left' (by simp)
    rw [List.cons_append, lowerHeaders, ← List.cons_append, found]
    simp only [behind, body]
  have newline : (['<', '?', 'p', 'h', 'p', '\n'].getLast?.or none) = some '\n' := rfl
  rw [lowerElements_eq, lowerHeaders_untouched (kept _), newline, lowered]
  rfl

theorem prepared_elementFile {name : List Char} (isName : ElementName name) (path : Path) :
    prepared path (elementFile name) = classFile (Name.ofElement name) := by
  have plain : '<' ∉ ['\n', 'c', 'l', 'a', 's', 's', ' ', ':'] ++ (name ++ [' ', '{', '}']) := by
    intro membership
    have inName : '<' ∈ name := by simpa using membership
    have isPart := isName.tail.inside '<' inName
    exact absurd isPart (by decide)
  have tags : lowerTags (elementFile name) = ['<', '?', 'p', 'h', 'p', '\n'] ++
      (['c', 'l', 'a', 's', 's', ' ', ':'] ++ (name ++ [' ', '{', '}'])) := by
    have lowered := @lowerTags_tag (['\n', 'c', 'l', 'a', 's', 's', ' ', ':'] ++
      (name ++ [' ', '{', '}'])) rfl
    rw [lowerTags_plain plain] at lowered
    exact lowered
  have header : withHeader path (elementFile name) = elementFile name := by
    simp [withHeader, startsInCode_elementFile]
  rw [prepared, header, tags, lowerElements_elementFile isName]

theorem lex_classFile {name : List Char} (inWord : ∀ c ∈ name, Text.isAsciiWord c = true)
    (starts : name.head?.any Char.isDigit = false) (nonempty : name ≠ []) :
    lex .html (classFile name) = .ok (⟨.openTag, 0, 5⟩ ::
      ⟨.ident ['c', 'l', 'a', 's', 's'], 6, 11⟩ :: ⟨.ident name, 12, 12 + Text.width name⟩ ::
      emptyBody (12 + Text.width name)) := by
  obtain ⟨c, word, rfl⟩ := List.exists_cons_of_ne_nil nonempty
  have noDigit : c.isDigit = false := starts
  rw [List.forall_mem_cons] at inWord
  have named : ∀ d ∈ word, isNameChar d = true :=
    fun d membership => isNameChar_of_isWord (isWord_of_ascii (inWord.2 d membership))
  have read : piece .code c (word ++ [' ', '{', '}']) =
      .ok (.lexeme (.ident (c :: word)) word.length) := by
    have run : (word ++ ([] ++ [' ', '{', '}'])).takeWhile isNameChar = word :=
      takeWhile_word named .nil rfl marks_notName
    rw [List.nil_append] at run
    rw [piece, codePiece_nameChar (isNameChar_of_isWord (isWord_of_ascii inWord.1)), noDigit,
      if_neg (by decide), run]
  have body := reaches_emptyBody (12 + Text.width (c :: word))
  have name : Reaches [] .code 12 (c :: (word ++ [' ', '{', '}'])) _ .code := .lexeme read body
  have declared := (reaches_keyword 5 _).append name
  have tag : piece .html '<' (['?', 'p', 'h', 'p'] ++ ('\n' :: ['c', 'l', 'a', 's', 's', ' '] ++
      (c :: (word ++ [' ', '{', '}'])) ++ [])) = .ok (.lexeme .openTag 4) := rfl
  have whole : Reaches [] .html 0 (classFile (c :: word)) _ .code :=
    @Reaches.lexeme [] .html .code 0 '<' ['?', 'p', 'h', 'p'] _ .openTag _ tag declared
  exact whole.lex

theorem removal_classFile (name : List Char) (offset : Nat) :
    removal {} none 0 (⟨.openTag, 0, 5⟩ :: ⟨.ident ['c', 'l', 'a', 's', 's'], 6, 11⟩ ::
      ⟨.ident name, 12, offset⟩ :: emptyBody offset) = {} := by
  rfl

theorem lower_elementFile {name : List Char} (isName : ElementName name) (path : Path) :
    lower path (elementFile name) = ⟨classFile (Name.ofElement name), []⟩ := by
  have lexed : lex .html (classFile (Name.ofElement name)) = _ :=
    lex_classFile (ofElement_word isName.tail) rfl (by simp [Name.ofElement])
  rw [lower, prepared_elementFile isName]
  simp only [lexed, removal_classFile]
  simp [blankSpans, disjointSpans, blankFrom_nil]

theorem beforeNumber_eq_iff {name : List Char} :
    beforeNumber name = name ↔
      ∀ front c back, name = front ++ '-' :: c :: back → c.isDigit = false := by
  induction name with
  | nil => simp [beforeNumber]
  | cons d rest inductionHypothesis =>
      rw [beforeNumber]
      split
      case isTrue numbered =>
          obtain ⟨rfl, digit⟩ := numbered
          cases rest with
          | nil => simp at digit
          | cons c back =>
              have isDigit : c.isDigit = true := by simpa using digit
              refine iff_of_false (by simp) fun plain => ?_
              exact absurd ((plain [] c back rfl).symm.trans isDigit) (by simp)
      case isFalse plain =>
          rw [List.cons.injEq, inductionHypothesis]
          constructor
          · rintro ⟨-, later⟩ front c back whole
            cases front with
            | nil =>
                obtain ⟨rfl, rfl⟩ := List.cons.inj whole
                simpa using plain
            | cons e front => exact later front c back (List.cons.inj whole).2
          · intro all
            refine ⟨rfl, fun front c back whole => all (d :: front) c back ?_⟩
            rw [whole, List.cons_append]

theorem beforeNumber_prefix (name : List Char) : beforeNumber name <+: name := by
  induction name with
  | nil => exact List.prefix_rfl
  | cons c rest inductionHypothesis =>
      rw [beforeNumber]
      split
      · exact List.prefix_cons_inj c |>.mpr (List.nil_prefix)
      · exact List.prefix_cons_inj c |>.mpr inductionHypothesis

/-- The class name tells the part in front of a number from the whole name. -/
theorem ofElement_beforeNumber {name : List Char} (isName : ElementName name) :
    Name.ofElement (beforeNumber name) = Name.ofElement name ↔ beforeNumber name = name := by
  obtain ⟨first, rest, rfl, starts, cut⟩ := beforeNumber_name isName
  obtain ⟨behind, whole⟩ := beforeNumber_prefix (first :: rest)
  have noColon : first ≠ ':' := by
    rintro rfl
    exact absurd starts (by decide)
  have mangled : ∀ text, Name.ofElement (first :: text) =
      ['x', 'h', 'p', '_'] ++ (first :: text).flatMap Name.mangleChar := by
    intro text
    simp [Name.ofElement, Text.trimStart, noColon]
  refine ⟨fun same => ?_, congrArg Name.ofElement⟩
  rw [cut] at whole
  rw [cut, ← whole, List.cons_append, mangled, mangled, ← List.cons_append,
    List.flatMap_append] at same
  have nothing : behind.flatMap Name.mangleChar = [] := by simpa using same
  cases behind with
  | nil => rw [cut, ← whole, List.append_nil]
  | cons c behind =>
      have empty : Name.mangleChar c = [] := (List.append_eq_nil_iff.mp nothing).1
      unfold Name.mangleChar at empty
      split at empty
      · cases empty
      · split at empty <;> cases empty

/-- The lowering writes the class name of the whole element name. The scan finds that of the part in
front of a number, so the two agree just if no hyphen has a digit behind it. -/
theorem parse_elementFile {name : List Char} (isName : ElementName name) (path : Path) :
    FactScan.parse (Text.bytes (elementFile name)) path =
        .ok [⟨⟨.classLike, .ofList (Name.ofElement (beforeNumber name))⟩, path⟩] ∧
      lower path (elementFile name) = ⟨classFile (Name.ofElement name), []⟩ ∧
      (Name.ofElement (beforeNumber name) = Name.ofElement name ↔
        ∀ front c back, name = front ++ '-' :: c :: back → c.isDigit = false) := by
  refine ⟨?_, lower_elementFile isName path, ?_⟩
  · obtain ⟨lexemes, named, inner, lexed⟩ := lex_elementFile isName
    refine FactScan.parse_of_scan ?_ (scan_elementFile isName named inner)
    rw [Text.decode_bytes, FactScan.lexFile, startsInCode_elementFile]
    exact lexed
  · rw [ofElement_beforeNumber isName, beforeNumber_eq_iff]

def mixedName : List Char := ['_', 'a', '1', ':', 'b', '-', '-', 'c']

theorem parse_mixedElement :
    FactScan.parse (Text.bytes (elementFile mixedName)) ⟨"t.hack"⟩ =
        .ok [⟨⟨.classLike, "xhp__a1__b__c"⟩, ⟨"t.hack"⟩⟩] ∧
      lower ⟨"t.hack"⟩ (elementFile mixedName) =
        ⟨classFile "xhp__a1__b__c".toList, []⟩ := by
  have isName : ElementName mixedName :=
    .name rfl (.char (.inl rfl) (.char (.inl rfl) (.colon rfl (.char (.inr rfl)
      (.char (.inr rfl) (.char (.inl rfl) .nil))))))
  have agree := parse_elementFile isName ⟨"t.hack"⟩
  exact ⟨agree.1, agree.2.1⟩

theorem parse_numberedElement :
    FactScan.parse (Text.bytes (elementFile ['a', '-', '1'])) ⟨"t.php"⟩ =
        .ok [⟨⟨.classLike, "xhp_a_"⟩, ⟨"t.php"⟩⟩] ∧
      lower ⟨"t.php"⟩ (elementFile ['a', '-', '1']) =
        ⟨"<?php\nclass xhp_a_1 \x7b\x7d".toList, []⟩ := by
  decide +kernel

end Dialect

end AutoloadIndex
