import AutoloadIndex.Proofs.ByteStrings
import AutoloadIndex.Proofs.PieceLocality

set_option autoImplicit false

/-!
Heredocs and tags on bytes. The label of a heredoc is cut out between characters, and comparing its
bytes with those of a line compares characters, since no character starts with the bytes of another
one.
-/

namespace AutoloadIndex

namespace Text

theorem bytes_cons (c : Char) (rest : List Char) :
    bytes (c :: rest) = String.utf8EncodeChar c ++ bytes rest := rfl

/-- No character starts with the bytes of another one. -/
theorem eq_of_encoded {c d : Char} {first second : List UInt8}
    (same : String.utf8EncodeChar c ++ first = String.utf8EncodeChar d ++ second) : c = d := by
  have decoded := congrArg (fun bytes : List UInt8 => bytes.toByteArray.utf8DecodeChar? 0) same
  simp only [List.toByteArray_append, ByteArray.utf8DecodeChar?_utf8EncodeChar_append,
    Option.some.injEq] at decoded
  exact decoded

theorem bytes_prefix_iff {word text : List Char} : bytes word <+: bytes text ↔ word <+: text := by
  constructor
  · intro isPrefix
    induction word generalizing text with
    | nil => exact List.nil_prefix
    | cons c rest inductionHypothesis =>
        cases text with
        | nil =>
            have positive := c.utf8Size_pos
            have length := isPrefix.length_le
            rw [length_bytes, length_bytes, width_cons, width_nil] at length
            omega
        | cons d text =>
            obtain ⟨behind, whole⟩ := isPrefix
            rw [bytes_cons, bytes_cons, List.append_assoc] at whole
            obtain rfl := eq_of_encoded whole
            rw [List.append_cancel_left_eq] at whole
            exact List.cons_prefix_cons.mpr ⟨rfl, inductionHypothesis ⟨behind, whole⟩⟩
  · rintro ⟨behind, rfl⟩
    exact ⟨bytes behind, (bytes_append word behind).symm⟩

end Text

namespace ByteLexer

open Lexeme (isSpace isIndent isNameChar closingLine heredocBody openingLabel heredocExtent
  startsWithIgnoringCase openTag? endsOrStarts)

theorem uniform_isNameChar : Uniform isNameChar := by
  intro c d wide alsoWide
  simp [isNameChar, wide, alsoWide]

theorem uniform_not_isNameChar : Uniform (!isNameChar ·) := by
  intro c d wide alsoWide
  simp only [uniform_isNameChar c d wide alsoWide]

theorem uniform_isIndent : Uniform isIndent := by
  refine Uniform.of_ascii fun c inClass => ?_
  simp only [isIndent, Bool.or_eq_true, beq_iff_eq] at inClass
  rcases inClass with rfl | rfl <;> decide

theorem closingLabel?_eq {source : List UInt8} {position : Nat} {line : List Char}
    (reads : Reads source position line) (label : List Char) :
    closingLabel? source (Text.bytes label) position =
      (closingLine label line).map fun more => position + Text.width (line.take more) := by
  have split := takeWhile_split isIndent line
  generalize isIndented : line.takeWhile isIndent = indent at split
  generalize isAfter : line.drop indent.length = after at split
  have skipped := skipWhile_eq uniform_isIndent reads
  rw [isIndented] at skipped
  rw [split] at reads
  have readsAfter := reads.later
  have prefix_iff : (source.drop (position + Text.width indent)).take (Text.width label) =
      Text.bytes label ↔ label.isPrefixOf after = true := by
    rw [readsAfter, List.isPrefixOf_iff_prefix, ← Text.bytes_prefix_iff, List.prefix_iff_eq_take,
      Text.length_bytes, eq_comm]
  unfold closingLabel? closingLine
  simp only [skipped, isIndented, isAfter, Text.length_bytes, prefix_iff]
  by_cases labelled : label.isPrefixOf after = true
  · obtain ⟨behind, rfl⟩ := List.isPrefixOf_iff_prefix.mp labelled
    rw [readsAfter.later.byteAt_all uniform_not_isNameChar, List.drop_left, split,
      ← List.append_assoc, ← List.length_append]
    by_cases ends : Lexeme.endsOrStarts (!isNameChar ·) behind = true
    · rw [if_pos ⟨labelled, ends⟩, if_pos ⟨labelled, ends⟩, Option.map_some, List.take_left,
        Text.width_append, Nat.add_assoc]
    · rw [if_neg (fun both => ends both.2), if_neg (fun both => ends both.2)]
      rfl
  · rw [if_neg (fun both => labelled both.1), if_neg (fun both => labelled both.1)]
    rfl

theorem skipBody_eq {source : List UInt8} {position : Nat} {text : List Char}
    (reads : Reads source position text) (label : List Char) :
    skipBody source (Text.bytes label) position =
      (heredocBody label text).map fun more => position + Text.width (text.take more) := by
  induction text generalizing position with
  | nil =>
      rw [skipBody, if_neg (by simp [reads.inside_iff])]
      rfl
  | cons c rest inductionHypothesis =>
      have inside : position < source.length := reads.inside_iff.mpr (by simp)
      have passes : ∀ place, IsWide source place →
          skipBody source (Text.bytes label) place =
            skipBody source (Text.bytes label) (place + 1) := by
        intro place wide
        rw [skipBody, if_pos wide.inside]
        simp [wide.ne '\n' (by decide)]
      have later : skipBody source (Text.bytes label) (position + 1) =
          ((heredocBody label rest).map (· + 1)).map fun more =>
            position + Text.width ((c :: rest).take more) := by
        rw [reads.skip (fun _ => passes), inductionHypothesis reads.tail]
        simp [Nat.add_assoc, Function.comp_def]
      rw [skipBody, if_pos inside, heredocBody]
      by_cases breaks : c = '\n'
      · have behind := reads.tail
        rw [breaks, utf8Size_of_ascii (by decide)] at behind
        simp only [if_pos ((reads.head_iff '\n' (by decide)).mpr breaks), if_pos breaks,
          closingLabel?_eq behind]
        cases closed : closingLine label rest with
        | none => exact later
        | some extent =>
            simp [breaks, utf8Size_of_ascii (show '\n'.toNat < 0x80 by decide), Nat.add_assoc]
      · simp only [if_neg (mt (reads.head_iff '\n' (by decide)).mp breaks), if_neg breaks]
        exact later

theorem cut_append (front slice back : List Char) :
    cut (front ++ (slice ++ back)) (Text.width front) (Text.width front + Text.width slice) =
      .ok slice := by
  rw [cut, Text.slice?_append]

def labelled (start : Nat) (text : List Char) :
    Except LexFault (List Char × Nat) → Except Failure (List Char × Nat)
  | .ok (label, more) => .ok (label, start + 3 + Text.width (text.take more))
  | .error fault => .error (.fault ⟨fault, start⟩)

theorem cut_name (front text : List Char) :
    skipWhile (Text.bytes (front ++ text)) isNameChar (Text.width front) =
        Text.width front + Text.width (text.takeWhile isNameChar) ∧
      cut (front ++ text) (Text.width front)
        (Text.width front + Text.width (text.takeWhile isNameChar)) =
        .ok (text.takeWhile isNameChar) ∧
      Reads (Text.bytes (front ++ text))
        (Text.width front + Text.width (text.takeWhile isNameChar))
        (text.drop (text.takeWhile isNameChar).length) := by
  have reads := Reads.of_append front text
  have split := takeWhile_split isNameChar text
  refine ⟨skipWhile_eq uniform_isNameChar reads, ?_, reads.behind isNameChar⟩
  generalize text.takeWhile isNameChar = name at *
  rw [split]
  exact cut_append front name (text.drop name.length)

theorem take_takeWhile (p : Char → Bool) (text : List Char) :
    text.take (text.takeWhile p).length = text.takeWhile p :=
  (List.prefix_iff_eq_take.mp (List.takeWhile_prefix p)).symm

theorem skipLabel_eq {front text : List Char} {start : Nat} (marks : Text.width front = start + 3) :
    skipLabel (front ++ text) start = labelled start text (openingLabel text) := by
  have reads := Reads.of_append front text
  have skipped := skipWhile_eq uniform_isIndent reads
  have split := takeWhile_split isIndent text
  have readsAfter := reads.behind isIndent
  have isAscii : ∀ c : Char, (c == '\'' || c == '"') = true → c.toNat < 0x80 := by
    intro c isQuote
    simp only [Bool.or_eq_true, beq_iff_eq] at isQuote
    rcases isQuote with rfl | rfl <;> decide
  have quoted := readsAfter.byteAt_filter isAscii
  unfold skipLabel openingLabel
  simp only [← marks, skipped, quoted]
  generalize text.takeWhile isIndent = indent at *
  generalize text.drop indent.length = after at *
  subst split
  rw [← List.append_assoc, ← Text.width_append]
  cases isQuote : after.head?.filter (fun c => c == '\'' || c == '"') with
  | none =>
      obtain ⟨stop, isName, -⟩ := cut_name (front ++ indent) after
      simp only [Option.isSome_none, Bool.false_eq_true, if_false, stop, isName]
      by_cases empty : (after.takeWhile isNameChar).isEmpty = true
      · rw [if_pos empty]
        exact if_pos empty
      · rw [if_neg empty]
        refine (if_neg empty).trans ?_
        simp only [labelled, List.take_length_add_append, take_takeWhile, Text.width_append, marks,
          Nat.add_assoc]
        rfl
  | some quote =>
      obtain ⟨isHead, isMark⟩ := Option.filter_eq_some_iff.mp isQuote
      obtain ⟨rest, rfl⟩ := List.head?_eq_some_iff.mp isHead
      have ascii := isAscii quote isMark
      obtain ⟨stop, isName, behind⟩ := cut_name (front ++ indent ++ [quote]) rest
      have closes_iff := behind.byteAt_iff quote ascii
      have opened : Text.width (front ++ indent ++ [quote]) = Text.width (front ++ indent) + 1 := by
        rw [Text.width_append, Text.width_cons, utf8Size_of_ascii ascii]
        rfl
      rw [List.append_assoc _ [quote], List.singleton_append] at stop isName closes_iff
      rw [opened] at stop isName closes_iff
      simp only [Option.isSome_some, if_true, List.tail_cons, stop, isName, closes_iff]
      by_cases empty : (rest.takeWhile isNameChar).isEmpty = true
      · rw [if_pos empty]
        exact if_pos empty
      · rw [if_neg empty]
        refine (if_neg empty).trans ?_
        by_cases closes : (rest.drop (rest.takeWhile isNameChar).length).head? = some quote
        · obtain ⟨more, isBehind⟩ := List.head?_eq_some_iff.mp closes
          have isRest := takeWhile_split isNameChar rest
          rw [isBehind] at isRest
          generalize rest.takeWhile isNameChar = name at *
          subst isRest
          simp only [if_pos closes, labelled, Nat.add_assoc, List.take_length_add_append,
            List.take_succ_cons, Text.width_append, Text.width_cons, utf8Size_of_ascii ascii, marks]
          rfl
        · simp only [if_neg closes]
          rfl

theorem skipHeredoc_eq {front text : List Char} {start : Nat}
    (marks : Text.width front = start + 3) :
    skipHeredoc (front ++ text) start =
      match heredocExtent text with
      | .ok more => .ok (start + 3 + Text.width (text.take more))
      | .error fault => .error (.fault ⟨fault, start⟩) := by
  have reads := Reads.of_append front text
  unfold skipHeredoc heredocExtent
  rw [skipLabel_eq marks]
  cases openingLabel text with
  | error fault => rfl
  | ok opening =>
      obtain ⟨label, head⟩ := opening
      have body := skipBody_eq (reads.drop head) label
      rw [offsetOf, marks] at body
      simp only [labelled, bind, Except.bind, body]
      cases heredocBody label (text.drop head) with
      | none => rfl
      | some more =>
          simp only [Option.map_some, List.take_add, Text.width_append, Nat.add_assoc]
          rfl

theorem toLower_of_wide {c : Char} (wide : 0x80 ≤ c.toNat) : c.toLower = c := by
  unfold Char.toLower
  rw [dif_neg]
  rintro ⟨-, upper⟩
  have bound : c.toNat ≤ 'Z'.toNat := UInt32.le_iff_toNat_le.mp upper
  exact absurd (Nat.le_trans wide bound) (by decide)

theorem startsWith_cons (c d : Char) (word rest : List Char) :
    startsWithIgnoringCase (c :: word) (d :: rest) =
      (d.toLower == c.toLower && startsWithIgnoringCase word rest) := by
  rw [Bool.beq_comm]
  rfl

theorem spells_eq {source : List UInt8} {position : Nat} {text word : List Char}
    (reads : Reads source position text) (ascii : word.all (·.toLower.toNat < 0x80) = true) :
    spells source position word = startsWithIgnoringCase word text := by
  induction word generalizing position text with
  | nil => rfl
  | cons c word inductionHypothesis =>
      rw [List.all_cons, Bool.and_eq_true, decide_eq_true_eq] at ascii
      rw [spells]
      cases text with
      | nil =>
          rw [reads.byteAt_nil]
          rfl
      | cons d rest =>
          rw [startsWith_cons]
          rcases reads.byte_cases with ⟨isAscii, found⟩ | ⟨wide, e, found, isWide⟩
          · have behind := reads.tail
            rw [utf8Size_of_ascii isAscii] at behind
            rw [found, inductionHypothesis behind ascii.2]
            rfl
          · have differ : ∀ {e : Char}, 0x80 ≤ e.toNat → (e.toLower == c.toLower) = false := by
              intro e isWide
              rw [toLower_of_wide isWide, beq_eq_false_iff_ne]
              rintro rfl
              exact absurd ascii.1 (Nat.not_lt.mpr isWide)
            rw [found, Option.any_some, differ isWide, differ wide, Bool.false_and, Bool.false_and]

theorem width_of_startsWith {word text : List Char}
    (ascii : word.all (·.toLower.toNat < 0x80) = true)
    (starts : startsWithIgnoringCase word text = true) :
    Text.width (text.take word.length) = word.length := by
  induction word generalizing text with
  | nil => rfl
  | cons c word inductionHypothesis =>
      rw [List.all_cons, Bool.and_eq_true, decide_eq_true_eq] at ascii
      cases text with
      | nil => cases starts
      | cons d rest =>
          rw [startsWith_cons, Bool.and_eq_true, beq_iff_eq] at starts
          have isAscii : d.toNat < 0x80 := by
            rw [← Nat.not_le]
            intro wide
            rw [toLower_of_wide wide] at starts
            rw [← starts.1] at ascii
            exact absurd ascii.1 (Nat.not_lt.mpr wide)
          rw [List.length_cons, List.take_succ_cons, Text.width_cons, utf8Size_of_ascii isAscii,
            inductionHypothesis ascii.2 starts.2, Nat.add_comm]

theorem uniform_isSpace : Uniform isSpace := by
  refine Uniform.of_ascii fun c space => ?_
  rcases Lexeme.isSpace_cases space with rfl | rfl | rfl | rfl | rfl <;> decide

theorem spells_iff {source : List UInt8} {position : Nat} {text word : List Char}
    {length : Nat} {p : Char → Bool} (reads : Reads source position text)
    (isLength : word.length = length) (ascii : word.all (·.toLower.toNat < 0x80) = true)
    (uniform : Uniform p) :
    spells source position word ∧ (byteAt source (position + length)).all p ↔
      startsWithIgnoringCase word text ∧ endsOrStarts p (text.drop length) := by
  subst isLength
  rw [spells_eq reads ascii]
  refine and_congr_right fun starts => ?_
  have behind := reads.drop word.length
  rw [offsetOf, width_of_startsWith ascii starts] at behind
  rw [behind.byteAt_all uniform]

theorem tagLength?_eq {source : List UInt8} {position : Nat} {text : List Char}
    (reads : Reads source position text) :
    tagLength? source position = (openTag? ('?' :: text)).map (· + 1) := by
  have php_iff := @spells_iff _ _ _ ['p', 'h', 'p'] 3 _ reads rfl rfl uniform_isSpace
  have hack_iff := @spells_iff _ _ _ ['h', 'h'] 2 _ reads rfl rfl uniform_not_isNameChar
  have short := reads.byteAt_all uniform_isSpace
  unfold tagLength? openTag?
  by_cases php : startsWithIgnoringCase ['p', 'h', 'p'] text ∧ endsOrStarts isSpace (text.drop 3)
  · rw [if_pos (php_iff.mpr php)]
    simp only [if_pos php, Option.map_some]
  rw [if_neg (mt php_iff.mp php)]
  simp only [if_neg php]
  by_cases hack : startsWithIgnoringCase ['h', 'h'] text ∧
      endsOrStarts (!isNameChar ·) (text.drop 2)
  · rw [if_pos (hack_iff.mpr hack), if_pos hack, Option.map_some]
  rw [if_neg (mt hack_iff.mp hack), if_neg hack, short]
  by_cases echo : text.head? = some '='
  · rw [if_pos ((reads.byteAt_iff '=' (by decide)).mpr echo), if_pos echo, Option.map_some]
  rw [if_neg (mt (reads.byteAt_iff '=' (by decide)).mp echo), if_neg echo]
  by_cases space : endsOrStarts isSpace text = true
  · rw [if_pos space, if_pos space, Option.map_some]
  · rw [if_neg space, if_neg space, Option.map_none]

end ByteLexer

end AutoloadIndex
