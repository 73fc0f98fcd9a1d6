import AutoloadIndex.Proofs.Decoding
import AutoloadIndex.Proofs.Headerless
import AutoloadIndex.Proofs.Lookahead
import AutoloadIndex.Proofs.Partition
import AutoloadIndex.Proofs.Restatement

set_option autoImplicit false

/-!
White space and comments between lexemes. If some are put in front of a lexeme of code, the lexer
finds the same lexemes, those behind the place further on, and the scan finds the same symbols.
-/

namespace AutoloadIndex

namespace Text

def insertAt (offset : Nat) (inserted : List Char) : List Char → List Char
  | [] => inserted
  | c :: rest =>
    if offset = 0 then inserted ++ c :: rest
    else c :: insertAt (offset - c.utf8Size) inserted rest

theorem insertAt_width (front inserted behind : List Char) :
    insertAt (width front) inserted (front ++ behind) = front ++ (inserted ++ behind) := by
  induction front with
  | nil => cases behind <;> simp [insertAt]
  | cons c front inductionHypothesis =>
      have positive := c.utf8Size_pos
      rw [List.cons_append, insertAt, if_neg (by rw [width_cons]; omega), width_cons,
        Nat.add_sub_cancel_left, inductionHypothesis, List.cons_append]

theorem append_of_width_le {front behind first second : List Char}
    (whole : first ++ second = front ++ behind) (wider : width front ≤ width first) :
    ∃ middle, first = front ++ middle ∧ behind = middle ++ second := by
  rcases List.append_eq_append_iff.mp whole with ⟨middle, rfl, rfl⟩ | ⟨middle, rfl, rfl⟩
  · cases middle with
    | nil => exact ⟨[], by simp, by simp⟩
    | cons c middle =>
        have positive := c.utf8Size_pos
        rw [width_append, width_cons] at wider
        omega
  · exact ⟨middle, rfl, rfl⟩

end Text

namespace Lexeme

open Text (IsSlice)

def Spells (source : List Char) (lexeme : Lexeme) (text : List Char) : Prop :=
  ∃ behind, IsSlice 0 source lexeme.start lexeme.stop text behind

section Spells

variable {front back text : List Char} {lexeme : Lexeme}

theorem Spells.in_front (spells : Spells (front ++ back) lexeme text)
    (inFront : lexeme.stop ≤ Text.width front) (other : List Char) :
    Spells (front ++ other) lexeme text := by
  obtain ⟨after, before, whole, start, stop⟩ := spells
  have wider : Text.width (before ++ text) ≤ Text.width front := by
    rw [Text.width_append]
    omega
  obtain ⟨middle, rfl, -⟩ := Text.append_of_width_le whole wider
  exact ⟨middle ++ other, before, by simp, start, stop⟩

theorem Spells.behind (spells : Spells (front ++ back) lexeme text)
    (isBehind : Text.width front ≤ lexeme.start) (inserted : List Char) :
    Spells (front ++ (inserted ++ back)) (lexeme.moved (Text.width inserted)) text := by
  obtain ⟨after, before, whole, start, stop⟩ := spells
  rw [Nat.zero_add] at start
  rw [List.append_assoc] at whole
  obtain ⟨middle, rfl, rfl⟩ := Text.append_of_width_le whole.symm (start ▸ isBehind)
  refine ⟨after, front ++ (inserted ++ middle), by simp, ?_, ?_⟩
  · simp only [moved, start, Text.width_append]
    omega
  · simp only [moved, stop]
    omega

end Spells

/-- White space and comments that end before whatever follows them. -/
inductive Filler : List Char → Prop where
  | nil : Filler []
  | space {c : Char} {rest : List Char} (space : isSpace c = true) (later : Filler rest) :
      Filler (c :: rest)
  | block {body rest : List Char}
      (firstEnd : ∀ before after, body ++ ['*', '/'] = before ++ '*' :: '/' :: after → after = [])
      (later : Filler rest) : Filler ('/' :: '*' :: (body ++ '*' :: '/' :: rest))
  | line {mark body rest : List Char}
      (opens : mark = ['/', '/'] ∨ mark = ['#'] ∧ body.head? ≠ some '[') (oneLine : '\n' ∉ body)
      (untagged : ∀ before after, body ≠ before ++ '?' :: '>' :: after) (later : Filler rest) :
      Filler (mark ++ (body ++ '\n' :: rest))

theorem blockComment_body {body : List Char} (behind : List Char)
    (firstEnd : ∀ before after, body ++ ['*', '/'] = before ++ '*' :: '/' :: after → after = []) :
    blockComment (body ++ '*' :: '/' :: behind) = some (body.length + 2) := by
  induction body with
  | nil => rfl
  | cons c body inductionHypothesis =>
      have goesOn : ¬ (c = '*' ∧ (body ++ '*' :: '/' :: behind).head? = some '/') := by
        rintro ⟨rfl, slash⟩
        cases body with
        | nil => simp at slash
        | cons d body =>
            obtain rfl : d = '/' := by simpa using slash
            exact absurd (firstEnd [] (body ++ ['*', '/']) rfl) (by simp)
      have later : ∀ before after, body ++ ['*', '/'] = before ++ '*' :: '/' :: after →
          after = [] :=
        fun before after whole => firstEnd (c :: before) after (congrArg (c :: ·) whole)
      rw [List.cons_append, blockComment, if_neg goesOn, inductionHypothesis later]
      rfl

theorem lineComment_body {body : List Char} (behind : List Char) (oneLine : '\n' ∉ body)
    (untagged : ∀ before after, body ≠ before ++ '?' :: '>' :: after) :
    lineComment (body ++ '\n' :: behind) = body.length := by
  induction body with
  | nil => rfl
  | cons c body inductionHypothesis =>
      rw [List.mem_cons, not_or] at oneLine
      have goesOn : ¬ (c = '\n' ∨ c = '?' ∧ (body ++ '\n' :: behind).head? = some '>') := by
        rintro (rfl | ⟨rfl, angle⟩)
        · exact oneLine.1 rfl
        · cases body with
          | nil => simp at angle
          | cons d body =>
              obtain rfl : d = '>' := by simpa using angle
              exact untagged [] body rfl
      have later : ∀ before after, body ≠ before ++ '?' :: '>' :: after :=
        fun before after whole => untagged (c :: before) after (congrArg (c :: ·) whole)
      rw [List.cons_append, lineComment, if_neg goesOn, inductionHypothesis oneLine.2 later]
      rfl

theorem Filler.reaches {blank : List Char} (filler : Filler blank) (behind : List Char)
    (offset : Nat) : Reaches behind .code offset blank [] .code := by
  induction filler generalizing offset with
  | nil => exact .here
  | @space c rest space later inductionHypothesis =>
      have read : piece .code c ([] ++ (rest ++ behind)) = .ok (.gap 0) := by
        simp [piece, codePiece, space]
      exact .gap read (inductionHypothesis _)
  | @block body rest firstEnd later inductionHypothesis =>
      have read : piece .code '/' ('*' :: (body ++ ['*', '/']) ++ (rest ++ behind)) =
          .ok (.gap ('*' :: (body ++ ['*', '/'])).length) := by
        have closed := blockComment_body (rest ++ behind) firstEnd
        simp [piece, codePiece, isSpace, closed]
      have reaches := Reaches.gap read (inductionHypothesis (offset + _))
      simpa using reaches
  | @line mark body rest opens oneLine untagged later inductionHypothesis =>
      have lineBreak : ∀ offset, Reaches behind .code offset ('\n' :: rest) [] .code :=
        fun offset => @Reaches.gap behind .code .code offset '\n' [] rest [] rfl
          (inductionHypothesis _)
      have length := lineComment_body (rest ++ behind) oneLine untagged
      rcases opens with rfl | ⟨rfl, noBracket⟩
      · have read : piece .code '/' ('/' :: body ++ ('\n' :: rest ++ behind)) =
            .ok (.gap ('/' :: body).length) := by
          simp [piece, codePiece, isSpace, lineComment, length]
        exact @Reaches.gap behind .code .code offset '/' ('/' :: body) ('\n' :: rest) [] read
          (lineBreak _)
      · have notOpen : (body ++ '\n' :: (rest ++ behind)).head? ≠ some '[' := by
          cases body with
          | nil => simp
          | cons d body => exact noBracket
        have read : piece .code '#' (body ++ ('\n' :: rest ++ behind)) =
            .ok (.gap body.length) := by
          simp only [piece, codePiece, List.cons_append, length, if_neg notOpen]
          simp [isSpace]
        exact @Reaches.gap behind .code .code offset '#' body ('\n' :: rest) [] read (lineBreak _)

namespace Reaches

variable {behind : List Char} {mode : Mode} {offset : Nat} {text : List Char}
  {lexemes : List Lexeme}

theorem exists_tag (reaches : Reaches behind mode offset text lexemes .code)
    (inline : mode = .html) : ∃ before after, text = before ++ '<' :: after := by
  generalize isCode : Mode.code = last at reaches
  induction reaches with
  | here => exact absurd (isCode.trans inline) (by simp)
  | @gap mode last offset c front text lexemes read later inductionHypothesis =>
      obtain ⟨before, after, rfl⟩ := inductionHypothesis inline isCode
      exact ⟨c :: (front ++ before), after, by simp⟩
  | @lexeme mode last offset c front text token lexemes read later inductionHypothesis =>
      subst inline
      rcases htmlPiece_cases c (front ++ (text ++ behind)) with isGap | ⟨more, rfl, -, -⟩
      · exact absurd (isGap.symm.trans (Except.ok.inj read)) (by simp)
      · exact ⟨[], _, rfl⟩

theorem nothing_read {last : Mode} (reaches : Reaches behind mode offset [] lexemes last) :
    lexemes = [] := by
  cases reaches
  rfl

theorem not_in_closeTag {back : List Char} {last : Mode} :
    ¬ Reaches ('>' :: back) .code offset ['?'] lexemes last := by
  intro reaches
  generalize whole : ['?'] = text at reaches
  cases reaches with
  | here => simp at whole
  | gap read later =>
      obtain ⟨rfl, empty⟩ := List.cons.inj whole
      obtain ⟨rfl, rfl⟩ := List.append_eq_nil_iff.mp empty.symm
      simp [piece, codePiece, isSpace] at read
  | lexeme read later =>
      obtain ⟨rfl, empty⟩ := List.cons.inj whole
      obtain ⟨rfl, rfl⟩ := List.append_eq_nil_iff.mp empty.symm
      simp [piece, codePiece, isSpace] at read

end Reaches

section Space

variable {c space : Char} {back other : List Char} (visible : isSpace c = false)
  (untagged : ¬ (c = '?' ∧ back.head? = some '>')) (isSpace : isSpace space = true)

include isSpace in
theorem fades_space : Fades (c :: back) (space :: other) :=
  .inr ⟨[], c, back, space, other, rfl, rfl, isSpace⟩

include visible untagged isSpace

/-- A gap in front of the white space ends where it did: a comment that runs up to it has its line
break, and no close tag comes apart. -/
theorem gap_before_space {mode : Mode} {offset : Nat} {d : Char} {front text : List Char}
    {lexemes : List Lexeme} (read : piece mode d (front ++ (text ++ c :: back)) =
      .ok (.gap front.length)) (later : Reaches (c :: back) mode offset text lexemes .code) :
    piece mode d (front ++ (text ++ space :: other)) = .ok (.gap front.length) := by
  cases mode with
  | code =>
      refine codePiece_local ((fades_space isSpace).append text) ?_ ?_ (by simp) read rfl
      · intro _ _ lineBreak
        cases text with
        | nil =>
            obtain rfl : c = '\n' := by simpa using lineBreak
            exact absurd visible (by decide)
        | cons e text => exact lineBreak
      · intro _ _ closeTag
        match text with
        | [] =>
            cases back with
            | nil => simp at closeTag
            | cons e back => exact absurd (by simpa using closeTag) untagged
        | [e] =>
            obtain ⟨rfl, rfl⟩ : e = '?' ∧ c = '>' := by simpa using closeTag
            exact absurd later Reaches.not_in_closeTag
        | e :: f :: text => exact closeTag
  | html =>
      obtain ⟨before, after, rfl⟩ := later.exists_tag rfl
      have isGap := Except.ok.inj read
      obtain rfl := htmlPiece_gap isGap
      rw [List.nil_append, List.append_assoc, List.cons_append] at isGap
      rw [List.nil_append, List.append_assoc, List.cons_append]
      exact congrArg Except.ok (htmlPiece_before_tag isGap)

omit visible untagged in
theorem lexeme_before_space {mode : Mode} {d : Char} {front text : List Char} {token : Token}
    (read : piece mode d (front ++ (text ++ c :: back)) = .ok (.lexeme token front.length))
    (apart : token = .punct '#' → text ≠ []) :
    piece mode d (front ++ (text ++ space :: other)) = .ok (.lexeme token front.length) := by
  have fades := (@fades_space c space back other isSpace).append text
  cases mode with
  | code =>
      refine codePiece_local fades (by simp) (by simp) ?_ read rfl
      intro isMark
      cases text with
      | nil => exact absurd rfl (apart (Piece.lexeme.inj isMark).1)
      | cons e text => rfl
  | html =>
      obtain rfl : token = .openTag := (piece_openTag_iff read).mpr rfl
      exact congrArg Except.ok (htmlPiece_openTag_local fades (Except.ok.inj read))

/-- The lexer comes to the same place if white space follows, unless it starts right behind the mark
of an attribute. -/
theorem Reaches.before_space {mode : Mode} {offset : Nat} {front : List Char}
    {found : List Lexeme} (reaches : Reaches (c :: back) mode offset front found .code)
    (apart : ∀ mark ∈ found.getLast?, mark.token = .punct '#' →
      mark.stop ≠ offset + Text.width front) :
    Reaches (space :: other) mode offset front found .code := by
  generalize isCode : Mode.code = last at reaches
  induction reaches with
  | here => exact .here
  | @gap mode last offset d piece text lexemes read later inductionHypothesis =>
      rw [← List.cons_append, Text.width_append, ← Nat.add_assoc] at apart
      subst isCode
      exact .gap (gap_before_space visible untagged isSpace read later)
        (inductionHypothesis apart rfl)
  | @lexeme mode last offset d piece text token lexemes read later inductionHypothesis =>
      rw [← List.cons_append, Text.width_append, ← Nat.add_assoc] at apart
      have laterApart : ∀ mark ∈ lexemes.getLast?, mark.token = .punct '#' →
          mark.stop ≠ offset + Text.width (d :: piece) + Text.width text := by
        intro mark isLast
        refine apart mark ?_
        cases lexemes with
        | nil => simp at isLast
        | cons first lexemes => exact isLast
      refine .lexeme (lexeme_before_space isSpace read ?_) (inductionHypothesis laterApart isCode)
      rintro isMark rfl
      obtain rfl := later.nothing_read
      exact apart _ rfl isMark rfl

end Space

section Inserted

variable {source blank : List Char} {space : Char} {found rest : List Lexeme} {first : Lexeme}

theorem reaches_code (lexed : lex .html source = .ok (found ++ first :: rest))
    (notTag : first.token ≠ .openTag ∧ first.token ≠ .closeTag) :
    ∃ front c back, source = front ++ c :: back ∧ first.start = Text.width front ∧
      isSpace c = false ∧ ¬ (c = '?' ∧ back.head? = some '>') ∧
      Reaches (c :: back) .html 0 front found .code ∧
      lexFrom .code (Text.width front) (c :: back) = .ok (first :: rest) := by
  have lexes : Lexes .html 0 source (found ++ first :: rest) := lexes_of_lexFrom lexed
  obtain ⟨front, middle, back, whole, nonempty, place, -⟩ :=
    lexes.boundaries first (List.mem_append_right found List.mem_cons_self)
  obtain ⟨c, middle, rfl⟩ := List.exists_cons_of_ne_nil nonempty
  rw [List.append_assoc, List.cons_append] at whole
  obtain ⟨last, reaches, later⟩ := reaches_of_lexes lexes whole rfl place
  obtain rfl : last = .code := by
    cases last with
    | code => rfl
    | html => exact absurd later.html_first.1 notTag.1
  rw [Nat.zero_add] at place later
  refine ⟨front, c, middle ++ back, whole, place, ?_, ?_, reaches, lexFrom_of_lexes later⟩
  · rw [Bool.eq_false_iff]
    intro space
    have further := later.space_first space first List.mem_cons_self
    exact Nat.lt_irrefl _ (place ▸ further)
  · rintro ⟨rfl, angle⟩
    obtain ⟨more, isTag⟩ := List.head?_eq_some_iff.mp angle
    rw [isTag] at later
    obtain ⟨others, split, -⟩ := later.closeTag_first
    obtain ⟨rfl, rfl⟩ := List.cons.inj split
    exact notTag.2 rfl

/-- White space and comments put in front of a lexeme move it and what follows it. Every lexeme
keeps its token and its text. -/
theorem lex_insertAt (lexed : lex .html source = .ok (found ++ first :: rest))
    (notTag : first.token ≠ .openTag ∧ first.token ≠ .closeTag)
    (apart : ∀ mark ∈ found.getLast?, mark.token = .punct '#' → mark.stop ≠ first.start)
    (isSpace : isSpace space = true) (filler : Filler blank) :
    let inserted := Text.insertAt first.start (space :: blank) source
    let distance := Text.width (space :: blank)
    lex .html inserted = .ok (found ++ (first :: rest).map (moved distance)) ∧
      (∀ lexeme ∈ found, ∀ text, Spells source lexeme text → Spells inserted lexeme text) ∧
      ∀ lexeme ∈ first :: rest, ∀ text, Spells source lexeme text →
        Spells inserted (lexeme.moved distance) text := by
  have lexes : Lexes .html 0 source (found ++ first :: rest) := lexes_of_lexFrom lexed
  obtain ⟨front, c, back, rfl, place, visible, untagged, reaches, later⟩ :=
    reaches_code lexed notTag
  intro inserted distance
  have isInserted : inserted = front ++ (space :: blank ++ c :: back) := by
    simp only [inserted, place, Text.insertAt_width]
  rw [isInserted]
  have stays : Reaches (space :: blank ++ c :: back) .html 0 front found .code := by
    refine reaches.before_space visible untagged isSpace ?_
    simpa only [Nat.zero_add, ← place] using apart
  have ascending := List.pairwise_append.mp lexes.ascending
  refine ⟨?_, ?_, ?_⟩
  · have nothing := (Filler.space isSpace filler).reaches (c :: back) (0 + Text.width front)
    rw [lex, stays.lexFrom, nothing.lexFrom, lexFrom_moved, Nat.zero_add, later]
    rfl
  · intro lexeme inFront text spells
    refine spells.in_front ?_ _
    rw [← place]
    exact ascending.2.2 lexeme inFront first List.mem_cons_self
  · intro lexeme isBehind text spells
    refine spells.behind ?_ _
    rcases List.mem_cons.mp isBehind with rfl | inRest
    · exact Nat.le_of_eq place.symm
    · have filled := (lexes.bounds first (by simp)).2
      have ordered := (List.pairwise_cons.mp ascending.2.1).1 lexeme inRest
      omega

end Inserted

end Lexeme

namespace FactScan

open Lexeme

theorem lexFile_php {path : Path} (php : path.extension = some "php") (source : List Char) :
    lexFile path source = lex .html source := by
  have notCode : Dialect.startsInCode path source = false := by
    rw [Dialect.startsInCode, php]
    have headed : (Dialect.headerlessExtensions.any
        (Text.sameIgnoringCase "php".toList ·.toList)) = false := by decide
    simp only [Option.any_some, headed, Bool.false_and]
  simp only [lexFile, notCode]
  rfl

theorem parse_ok_iff {path : Path} {source : List Char} {lexemes : List Lexeme}
    (lexed : lexFile path source = .ok lexemes) (definitions : List Definition) :
    parse (Text.bytes source) path = .ok definitions ↔
      ∃ found, scan {} lexemes = .ok found ∧ found.map (·.definedIn path) = definitions := by
  simp only [parse, Text.decode_bytes, symbols, lexed]
  cases scan {} lexemes with
  | ok found => simp
  | error fault => cases fault <;> simp

/-- Where white space and comments stand in the code does not count: not for the lexer, and without
element classes also not for the definitions found. -/
theorem parse_insertAt {source blank : List Char} {space : Char} {found rest : List Lexeme}
    {first : Lexeme} (lexed : lex .html source = .ok (found ++ first :: rest))
    (notTag : first.token ≠ .openTag ∧ first.token ≠ .closeTag)
    (apart : ∀ mark ∈ found.getLast?, mark.token = .punct '#' → mark.stop ≠ first.start)
    (isSpace : isSpace space = true) (filler : Filler blank) :
    let inserted := Text.insertAt first.start (space :: blank) source
    let distance := Text.width (space :: blank)
    (lex .html inserted = .ok (found ++ (first :: rest).map (moved distance)) ∧
      (∀ lexeme ∈ found, ∀ text, Spells source lexeme text → Spells inserted lexeme text) ∧
      ∀ lexeme ∈ first :: rest, ∀ text, Spells source lexeme text →
        Spells inserted (lexeme.moved distance) text) ∧
    ∀ path : Path, path.extension = some "php" →
      Elementless ((found ++ first :: rest).map Lexeme.token) → ∀ definitions,
        (parse (Text.bytes inserted) path = .ok definitions ↔
          parse (Text.bytes source) path = .ok definitions) := by
  intro inserted distance
  have relexed := lex_insertAt lexed notTag apart isSpace filler
  refine ⟨relexed, ?_⟩
  intro path php plain definitions
  have sameTokens : (found ++ first :: rest).map Lexeme.token =
      (found ++ (first :: rest).map (moved distance)).map Lexeme.token := by
    rw [List.map_append, List.map_append, List.map_map]
    rfl
  have same := scan_restated (restated_of_tokens plain sameTokens) (State.Alike.refl {})
  rw [parse_ok_iff ((lexFile_php php _).trans relexed.1),
    parse_ok_iff ((lexFile_php php _).trans lexed)]
  simp only [ok_iff_of_toOption same]
  exact Iff.rfl

def attributedHead : List Lexeme := [
  ⟨.openTag, 0, 5⟩, ⟨.punct '#', 6, 7⟩, ⟨.punct '[', 7, 8⟩, ⟨.ident ['x'], 8, 9⟩,
  ⟨.punct ']', 9, 10⟩, ⟨.ident "class".toList, 10, 15⟩]

theorem parse_insertAt_attributedClass :
    Text.insertAt 16 "\n/***/#]\n".toList "<?php #[x]class A{}".toList =
      "<?php #[x]class \n/***/#]\nA{}".toList ∧
    parse (Text.bytes "<?php #[x]class \n/***/#]\nA{}".toList) ⟨"t.php"⟩ =
      .ok [⟨⟨.classLike, "A"⟩, ⟨"t.php"⟩⟩] := by
  have lexed : lex .html "<?php #[x]class A{}".toList = .ok (attributedHead ++
      ⟨.ident ['A'], 16, 17⟩ :: [⟨.punct '{', 17, 18⟩, ⟨.punct '}', 18, 19⟩]) := by
    decide +kernel
  have filler : Filler "/***/#]\n".toList := by
    refine @Filler.block ['*'] "#]\n".toList ?_ (@Filler.line ['#'] [']'] [] ?_ ?_ ?_ .nil)
    · rintro (- | ⟨c, - | ⟨d, - | ⟨e, before⟩⟩⟩) after <;> simp
    · simp
    · simp
    · rintro (- | ⟨c, before⟩) after <;> simp
  have inserted := parse_insertAt lexed (by decide) (by decide) (show isSpace '\n' = true from rfl)
    filler
  have place : Text.insertAt 16 "\n/***/#]\n".toList "<?php #[x]class A{}".toList =
      "<?php #[x]class \n/***/#]\nA{}".toList := by decide +kernel
  refine ⟨place, ?_⟩
  rw [← place]
  refine (inserted.2 ⟨"t.php"⟩ (by decide +kernel) (by decide +kernel) _).mpr ?_
  decide +kernel

end FactScan

end AutoloadIndex
