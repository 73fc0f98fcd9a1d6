import AutoloadIndex.Dialect.Header

set_option autoImplicit false

/-!
What the rewriting of open tags does to a text: which tags are rewritten, where a text may be taken
apart without a change to the result, and what stays of its first characters.
-/

namespace AutoloadIndex.Dialect

def startsTag : List Char → Bool
  | '<' :: '?' :: 'h' :: 'h' :: rest => !rest.head?.any Text.isWord
  | _ => false

theorem startsTag_cases {text : List Char} (starts : startsTag text = true) :
    ∃ rest, text = '<' :: '?' :: 'h' :: 'h' :: rest ∧ rest.head?.any Text.isWord = false := by
  unfold startsTag at starts
  split at starts
  case h_1 rest => exact ⟨rest, rfl, by simpa using starts⟩
  case h_2 => cases starts

theorem startsTag_of_ne {c : Char} (rest : List Char) (differs : c ≠ '<') :
    startsTag (c :: rest) = false := by
  rw [Bool.eq_false_iff]
  intro starts
  obtain ⟨more, whole, -⟩ := startsTag_cases starts
  exact differs (List.cons.inj whole).1

@[simp] theorem lowerTags_nil : lowerTags [] = [] := by
  rw [lowerTags]

theorem lowerTags_tag {rest : List Char} (ends : rest.head?.any Text.isWord = false) :
    lowerTags ('<' :: '?' :: 'h' :: 'h' :: rest) =
      '<' :: '?' :: 'p' :: 'h' :: 'p' :: lowerTags rest := by
  rw [lowerTags, ends]
  rfl

theorem lowerTags_of_ne {c : Char} (rest : List Char) (differs : c ≠ '<') :
    lowerTags (c :: rest) = c :: lowerTags rest := by
  rw [lowerTags]
  intro more mark
  exact absurd mark differs

theorem lowerTags_cons {c : Char} {rest : List Char} (plain : startsTag (c :: rest) = false) :
    lowerTags (c :: rest) = c :: lowerTags rest := by
  by_cases tag : ∃ more, c :: rest = '<' :: '?' :: 'h' :: 'h' :: more
  · obtain ⟨more, whole⟩ := tag
    cases whole
    have word : more.head?.any Text.isWord = true := by simpa [startsTag] using plain
    rw [lowerTags, word, lowerTags_of_ne _ (by decide), lowerTags_of_ne _ (by decide),
      lowerTags_of_ne _ (by decide)]
    rfl
  · rw [lowerTags]
    intro more mark rest
    exact tag ⟨more, by rw [mark, rest]⟩

/-- The induction over a text from tag to tag. -/
theorem tagInduction {motive : List Char → Prop} (nil : motive [])
    (tag : ∀ rest, rest.head?.any Text.isWord = false → motive rest →
      motive ('<' :: '?' :: 'h' :: 'h' :: rest))
    (cons : ∀ c rest, startsTag (c :: rest) = false → motive rest → motive (c :: rest))
    (text : List Char) : motive text := by
  induction size : text.length using Nat.strongRecOn generalizing text with
  | ind _ inductionHypothesis =>
      subst size
      cases starts : startsTag text with
      | true =>
          obtain ⟨rest, rfl, ends⟩ := startsTag_cases starts
          exact tag rest ends (inductionHypothesis _ (by simp only [List.length_cons]; omega) rest rfl)
      | false =>
          cases text with
          | nil => exact nil
          | cons c rest => exact cons c rest starts (inductionHypothesis _ (by simp) rest rfl)

theorem tagCases {motive : List Char → Prop} (nil : motive [])
    (tag : ∀ rest, rest.head?.any Text.isWord = false → motive ('<' :: '?' :: 'h' :: 'h' :: rest))
    (cons : ∀ c rest, startsTag (c :: rest) = false → motive (c :: rest)) (text : List Char) :
    motive text :=
  tagInduction nil (fun rest ends _ => tag rest ends) (fun c rest plain _ => cons c rest plain) text

theorem lowerTags_append_plain {front : List Char} (plain : '<' ∉ front) (text : List Char) :
    lowerTags (front ++ text) = front ++ lowerTags text := by
  induction front with
  | nil => rfl
  | cons c front inductionHypothesis =>
      rw [List.mem_cons, not_or] at plain
      rw [List.cons_append, lowerTags_of_ne _ (Ne.symm plain.1), inductionHypothesis plain.2,
        List.cons_append]

theorem lowerTags_plain {text : List Char} (plain : '<' ∉ text) : lowerTags text = text := by
  have whole := lowerTags_append_plain plain []
  simpa using whole

theorem drop_lowerTags_of_plain {text : List Char} {n : Nat} (plain : '<' ∉ text.take n) :
    (lowerTags text).drop n = lowerTags (text.drop n) := by
  have whole := lowerTags_append_plain plain (text.drop n)
  rw [List.take_append_drop] at whole
  by_cases inside : n ≤ text.length
  · rw [whole, List.drop_left' (List.length_take_of_le inside)]
  · have short : text.take n = text := List.take_of_length_le (by omega)
    rw [lowerTags_plain (short ▸ plain), List.drop_of_length_le (by omega), lowerTags_nil]

theorem take_lowerTags_of_plain {text : List Char} {n : Nat} (plain : '<' ∉ text.take n) :
    (lowerTags text).take n = text.take n := by
  have whole := lowerTags_append_plain plain (text.drop n)
  rw [List.take_append_drop] at whole
  by_cases inside : n ≤ text.length
  · rw [whole, List.take_left' (List.length_take_of_le inside)]
  · have short : text.take n = text := List.take_of_length_le (by omega)
    rw [lowerTags_plain (short ▸ plain)]

theorem mem_take_lowerTags (n : Nat) (text : List Char) :
    '<' ∈ (lowerTags text).take n ↔ '<' ∈ text.take n := by
  induction n generalizing text with
  | zero => simp
  | succ n inductionHypothesis =>
      cases text using tagCases with
      | nil => rw [lowerTags_nil]
      | tag rest ends => simp [lowerTags_tag ends]
      | cons c rest plain =>
          rw [lowerTags_cons plain, List.take_succ_cons, List.take_succ_cons, List.mem_cons,
            List.mem_cons, inductionHypothesis rest]

theorem take_two_lowerTags (text : List Char) : (lowerTags text).take 2 = text.take 2 := by
  have one : ∀ text : List Char, (lowerTags text).take 1 = text.take 1 := by
    intro text
    induction text using tagInduction with
    | nil => rfl
    | tag rest ends => rw [lowerTags_tag ends]; rfl
    | cons c rest plain => rw [lowerTags_cons plain]; rfl
  induction text using tagInduction with
  | nil => rfl
  | tag rest ends => rw [lowerTags_tag ends]; rfl
  | cons c rest plain => rw [lowerTags_cons plain, List.take_succ_cons, one, List.take_succ_cons]

theorem head?_lowerTags (text : List Char) : (lowerTags text).head? = text.head? := by
  have first : ∀ cs : List Char, cs.head? = (cs.take 2).head? := by
    intro cs
    cases cs <;> rfl
  rw [first, take_two_lowerTags, ← first]

/-- A text behind which a tag in front of it would not go on. -/
def Detached (text : List Char) : Prop :=
  text.head?.any Text.isWord = false ∧ text.take 2 ≠ ['?', 'h']

theorem Detached.left {mark text : List Char} (detached : Detached (mark ++ text)) :
    Detached mark := by
  obtain ⟨noWord, noTag⟩ := detached
  cases mark with
  | nil => exact ⟨rfl, by simp⟩
  | cons c mark =>
      refine ⟨noWord, ?_⟩
      intro starts
      match mark with
      | [] => simp at starts
      | d :: mark => exact noTag starts

theorem startsTag_of_append {front text : List Char} (detached : Detached text)
    (nonempty : front ≠ []) (starts : startsTag (front ++ text) = true) :
    startsTag front = true := by
  obtain ⟨noWord, noTag⟩ := detached
  obtain ⟨rest, whole, ends⟩ := startsTag_cases starts
  have noLetter : ∀ more, text ≠ 'h' :: more := by
    rintro more rfl
    have letter : Text.isWord 'h' = true := by decide
    simp [letter] at noWord
  match front with
  | [_] =>
      obtain ⟨-, rfl⟩ := List.cons.inj whole
      exact absurd rfl noTag
  | [_, _] => exact absurd (List.cons.inj (List.cons.inj whole).2).2 (noLetter _)
  | [_, _, _] =>
      exact absurd (List.cons.inj (List.cons.inj (List.cons.inj whole).2).2).2 (noLetter _)
  | _ :: _ :: _ :: _ :: more =>
      simp only [List.cons_append, List.cons.injEq] at whole
      obtain ⟨rfl, rfl, rfl, rfl, rfl⟩ := whole
      cases more with
      | nil => rfl
      | cons c more => simpa [startsTag] using ends

/-- A text may be cut in front of one that is detached. -/
theorem lowerTags_append {front text : List Char} (detached : Detached text) :
    lowerTags (front ++ text) = lowerTags front ++ lowerTags text := by
  induction front using tagInduction with
  | nil => rfl
  | tag rest ends inductionHypothesis =>
      have alsoEnds : (rest ++ text).head?.any Text.isWord = false := by
        cases rest with
        | nil => exact detached.1
        | cons c rest => exact ends
      rw [lowerTags_tag ends]
      simp only [List.cons_append]
      rw [lowerTags_tag alsoEnds, inductionHypothesis]
  | cons c rest plain inductionHypothesis =>
      have alsoPlain : startsTag (c :: (rest ++ text)) = false := by
        rw [Bool.eq_false_iff]
        intro starts
        rw [startsTag_of_append detached (List.cons_ne_nil c rest) starts] at plain
        exact absurd plain (by simp)
      rw [lowerTags_cons plain, List.cons_append, lowerTags_cons alsoPlain, inductionHypothesis,
        List.cons_append]

section Classes

variable {p : Char → Bool} (unmarked : p '<' = false) (text : List Char)

include unmarked

theorem not_mem_takeWhile : '<' ∉ text.takeWhile p := by
  intro membership
  have inClass := List.all_eq_true.mp (List.all_takeWhile (p := p) (l := text)) _ membership
  rw [unmarked] at inClass
  exact absurd inClass (by simp)

theorem lowerTags_split :
    lowerTags text = text.takeWhile p ++ lowerTags (text.dropWhile p) := by
  have whole := lowerTags_append_plain (not_mem_takeWhile unmarked text) (text.dropWhile p)
  rw [List.takeWhile_append_dropWhile] at whole
  exact whole

theorem takeWhile_lowerTags : (lowerTags text).takeWhile p = text.takeWhile p := by
  have inClass : ∀ c ∈ text.takeWhile p, p c = true := List.all_eq_true.mp List.all_takeWhile
  have stops : (lowerTags (text.dropWhile p)).takeWhile p = [] := by
    have head := head?_lowerTags (text.dropWhile p)
    have stop := List.head?_dropWhile_not p text
    cases lowered : lowerTags (text.dropWhile p) with
    | nil => rfl
    | cons c rest =>
        rw [lowered, List.head?_cons] at head
        rw [← head] at stop
        simp at stop
        simp [stop]
  rw [lowerTags_split unmarked text, List.takeWhile_append_of_pos inClass, stops, List.append_nil]

theorem drop_lowerTags :
    (lowerTags text).drop (text.takeWhile p).length =
      lowerTags (text.drop (text.takeWhile p).length) := by
  apply drop_lowerTags_of_plain
  rw [← List.prefix_iff_eq_take.mp (List.takeWhile_prefix p)]
  exact not_mem_takeWhile unmarked text

end Classes

theorem startsTag_append {c : Char} {front text : List Char} (detached : Detached text)
    (starts : startsTag (c :: front) = true) : startsTag (c :: (front ++ text)) = true := by
  obtain ⟨rest, whole, ends⟩ := startsTag_cases starts
  obtain ⟨rfl, rfl⟩ := List.cons.inj whole
  cases rest with
  | nil => simp [startsTag, detached.1]
  | cons d rest => simpa [startsTag] using ends

/-- What comes in front of a detached text has a tag in the whole text wherever it has one alone. -/
theorem lowerTags_front {c : Char} {front text : List Char} (detached : Detached text)
    (plain : startsTag (c :: (front ++ text)) = false) :
    lowerTags (c :: front) = c :: lowerTags front := by
  apply lowerTags_cons
  rw [Bool.eq_false_iff] at plain ⊢
  exact mt (startsTag_append detached) plain

theorem lowerTags_tag_front {front text : List Char}
    (ends : (front ++ text).head?.any Text.isWord = false) :
    lowerTags ('<' :: '?' :: 'h' :: 'h' :: front) =
      '<' :: '?' :: 'p' :: 'h' :: 'p' :: lowerTags front := by
  apply lowerTags_tag
  cases front with
  | nil => rfl
  | cons c front => exact ends

/-- A cut through a text and the same cut through its rewritten form, counted in characters: both
stand right behind an end mark that is detached from what is in front of it. -/
inductive SameCut (text : List Char) (more other : Nat) : Prop where
  | behind (before mark rest : List Char) (whole : text = before ++ (mark ++ rest))
      (detached : Detached (mark ++ rest)) (plain : '<' ∉ mark)
      (isMore : more = before.length + mark.length)
      (isOther : other = (lowerTags before).length + mark.length)

namespace SameCut

variable {text : List Char} {more other : Nat}

theorem here {mark rest : List Char} (detached : Detached (mark ++ rest)) (plain : '<' ∉ mark) :
    SameCut (mark ++ rest) mark.length mark.length :=
  .behind [] mark rest rfl detached plain (by simp) (by simp)

theorem zero (detached : Detached text) : SameCut text 0 0 :=
  .behind [] [] text rfl detached List.not_mem_nil (by simp) (by simp)

theorem cons (cut : SameCut text more other) {c : Char} (plain : startsTag (c :: text) = false) :
    SameCut (c :: text) (more + 1) (other + 1) := by
  obtain ⟨before, mark, rest, rfl, detached, unmarked, rfl, rfl⟩ := cut
  refine .behind (c :: before) mark rest rfl detached unmarked ?_ ?_
  · rw [List.length_cons, Nat.add_right_comm]
  · rw [lowerTags_front detached plain, List.length_cons, Nat.add_right_comm]

theorem tag (cut : SameCut text more other) (ends : text.head?.any Text.isWord = false) :
    SameCut ('<' :: '?' :: 'h' :: 'h' :: text) (more + 4) (other + 5) := by
  obtain ⟨before, mark, rest, rfl, detached, unmarked, rfl, rfl⟩ := cut
  refine .behind ('<' :: '?' :: 'h' :: 'h' :: before) mark rest rfl detached unmarked ?_ ?_
  · simp only [List.length_cons]
    omega
  · simp only [lowerTags_tag_front ends, List.length_cons]
    omega

theorem plain_append (cut : SameCut text more other) {front : List Char} (plain : '<' ∉ front) :
    SameCut (front ++ text) (front.length + more) (front.length + other) := by
  obtain ⟨before, mark, rest, rfl, detached, unmarked, rfl, rfl⟩ := cut
  refine .behind (front ++ before) mark rest (List.append_assoc ..).symm detached unmarked ?_ ?_
  · rw [List.length_append, Nat.add_assoc]
  · rw [lowerTags_append_plain plain, List.length_append, Nat.add_assoc]

theorem parts (cut : SameCut text more other) :
    (lowerTags text).take other = lowerTags (text.take more) ∧
      (lowerTags text).drop other = lowerTags (text.drop more) := by
  obtain ⟨before, mark, rest, rfl, detached, plain, rfl, rfl⟩ := cut
  have front : lowerTags (before ++ mark) = lowerTags before ++ mark := by
    rw [lowerTags_append detached.left, lowerTags_plain plain]
  rw [lowerTags_append detached, lowerTags_append_plain plain, ← List.append_assoc,
    ← List.append_assoc, ← List.length_append, ← List.length_append, List.take_left,
    List.drop_left, List.take_left, List.drop_left]
  exact ⟨front.symm, rfl⟩

end SameCut

end AutoloadIndex.Dialect
