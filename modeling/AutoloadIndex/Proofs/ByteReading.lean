import AutoloadIndex.Proofs.ByteLexer

set_option autoImplicit false

/-!
Bytes as parts of characters. A character of ASCII is its only byte, and every byte of a longer one
lies beyond ASCII, so a loop that looks for ASCII alone goes byte by byte where it would go
character by character.
-/

namespace AutoloadIndex.ByteLexer

def Reads (source : List UInt8) (position : Nat) (text : List Char) : Prop :=
  source.drop position = Text.bytes text

def IsWide (source : List UInt8) (position : Nat) : Prop :=
  ∃ d, byteAt source position = some d ∧ 0x80 ≤ d.toNat

/-- A class of characters that does not tell those beyond ASCII apart. -/
def Uniform (p : Char → Bool) : Prop :=
  ∀ c d : Char, 0x80 ≤ c.toNat → 0x80 ≤ d.toNat → p c = p d

theorem Uniform.of_ascii {p : Char → Bool} (ascii : ∀ c, p c = true → c.toNat < 0x80) :
    Uniform p := by
  have outside : ∀ c : Char, 0x80 ≤ c.toNat → p c = false := by
    intro c wide
    rw [Bool.eq_false_iff]
    exact fun inClass => absurd (ascii c inClass) (Nat.not_lt.mpr wide)
  intro c d wide alsoWide
  rw [outside c wide, outside d alsoWide]

theorem takeWhile_split (p : Char → Bool) (text : List Char) :
    text = text.takeWhile p ++ text.drop (text.takeWhile p).length :=
  (List.prefix_iff_eq_append.mp (List.takeWhile_prefix p)).symm

theorem utf8Size_of_ascii {c : Char} (ascii : c.toNat < 0x80) : c.utf8Size = 1 := by
  rw [Char.utf8Size_eq_one_iff, UInt32.le_iff_toNat_le]
  exact Nat.le_of_lt_succ ascii

theorem lt_of_byteAt {source : List UInt8} {position : Nat} {c : Char}
    (found : byteAt source position = some c) : position < source.length := by
  obtain ⟨byte, isByte, -⟩ := Option.map_eq_some_iff.mp found
  exact (List.getElem?_eq_some_iff.mp isByte).1

namespace IsWide

variable {source : List UInt8} {position : Nat}

theorem inside (wide : IsWide source position) : position < source.length := by
  obtain ⟨d, found, -⟩ := wide
  exact lt_of_byteAt found

theorem ne (wide : IsWide source position) (d : Char) (ascii : d.toNat < 0x80) :
    byteAt source position ≠ some d := by
  obtain ⟨e, found, isWide⟩ := wide
  rw [found, Ne, Option.some.injEq]
  rintro rfl
  omega

end IsWide

namespace Reads

variable {source : List UInt8} {position : Nat} {text rest : List Char} {c : Char}

theorem of_append (front text : List Char) :
    Reads (Text.bytes (front ++ text)) (Text.width front) text := by
  unfold Reads
  rw [Text.bytes_append, ← Text.length_bytes, List.drop_left]

theorem later {front : List Char} (reads : Reads source position (front ++ text)) :
    Reads source (position + Text.width front) text := by
  unfold Reads at reads ⊢
  rw [← List.drop_drop, reads, Text.bytes_append, ← Text.length_bytes, List.drop_left]

theorem tail (reads : Reads source position (c :: rest)) :
    Reads source (position + c.utf8Size) rest :=
  @later source position rest [c] reads

theorem behind (reads : Reads source position text) (p : Char → Bool) :
    Reads source (position + Text.width (text.takeWhile p))
      (text.drop (text.takeWhile p).length) := by
  refine later ?_
  rw [← takeWhile_split]
  exact reads

theorem inside_iff (reads : Reads source position text) :
    position < source.length ↔ text ≠ [] := by
  have lengths := congrArg List.length reads
  rw [List.length_drop, Text.length_bytes] at lengths
  cases text with
  | nil =>
      rw [Text.width_nil] at lengths
      simp only [ne_eq, not_true_eq_false, iff_false]
      omega
  | cons c rest =>
      have positive := c.utf8Size_pos
      rw [Text.width_cons] at lengths
      simp only [ne_eq, reduceCtorEq, not_false_eq_true, iff_true]
      omega

theorem beyond (reads : Reads source position []) (ahead : Nat) :
    Reads source (position + ahead) [] := by
  unfold Reads at reads ⊢
  rw [← List.drop_drop, reads]
  exact List.drop_nil

theorem byteAt_nil (reads : Reads source position []) : byteAt source position = none := by
  cases found : byteAt source position with
  | none => rfl
  | some c => exact absurd (lt_of_byteAt found) (by simp [reads.inside_iff])

theorem byteAt_cons (reads : Reads source position (c :: rest)) {ahead : Nat}
    (inside : ahead < c.utf8Size) :
    ∃ byte ∈ String.utf8EncodeChar c,
      byteAt source (position + ahead) = some (Char.ofUInt8 byte) := by
  have inBytes : ahead < (String.utf8EncodeChar c).length := by
    rwa [String.length_utf8EncodeChar]
  have first : Text.bytes (c :: rest) = String.utf8EncodeChar c ++ Text.bytes rest := rfl
  refine ⟨_, List.getElem_mem inBytes, ?_⟩
  unfold byteAt
  rw [← List.getElem?_drop, reads, first, List.getElem?_append_left inBytes,
    List.getElem?_eq_getElem inBytes]
  rfl

theorem byteAt_ascii (reads : Reads source position (c :: rest)) (ascii : c.toNat < 0x80) :
    byteAt source position = some c := by
  obtain ⟨byte, membership, found⟩ := reads.byteAt_cons c.utf8Size_pos
  rw [String.utf8EncodeChar_eq_singleton (utf8Size_of_ascii ascii), List.mem_singleton]
    at membership
  have code : (Char.ofUInt8 byte).toNat = c.toNat := by
    rw [membership]
    exact Nat.mod_eq_of_lt (Nat.lt_trans ascii (by decide))
  rw [Nat.add_zero] at found
  rw [found, Char.toNat_inj.mp code]

theorem isWide (reads : Reads source position (c :: rest)) (wide : 0x80 ≤ c.toNat)
    {ahead : Nat} (inside : ahead < c.utf8Size) : IsWide source (position + ahead) := by
  obtain ⟨byte, membership, found⟩ := reads.byteAt_cons inside
  refine ⟨_, found, ?_⟩
  rw [← Nat.not_lt]
  intro ascii
  have same := Dialect.toNat_of_mem_utf8EncodeChar membership ascii
  have isByte : (Char.ofUInt8 byte).toNat = byte.toNat := rfl
  omega

theorem byte_cases (reads : Reads source position (c :: rest)) :
    c.toNat < 0x80 ∧ byteAt source position = some c ∨
      0x80 ≤ c.toNat ∧ IsWide source position := by
  by_cases wide : 0x80 ≤ c.toNat
  · exact .inr ⟨wide, reads.isWide wide c.utf8Size_pos⟩
  · have ascii := Nat.lt_of_not_le wide
    exact .inl ⟨ascii, reads.byteAt_ascii ascii⟩

theorem exists_byte (reads : Reads source position (c :: rest)) :
    ∃ d, byteAt source position = some d := by
  rcases reads.byte_cases with ⟨-, found⟩ | ⟨-, d, found, -⟩
  · exact ⟨c, found⟩
  · exact ⟨d, found⟩

theorem byteAt_iff (reads : Reads source position text) (d : Char)
    (ascii : d.toNat < 0x80) :
    byteAt source position = some d ↔ text.head? = some d := by
  cases text with
  | nil => simp [reads.byteAt_nil]
  | cons c rest =>
      rw [List.head?_cons]
      rcases reads.byte_cases with ⟨-, found⟩ | ⟨wide, isWide⟩
      · rw [found]
      · constructor
        · intro found
          exact absurd found (isWide.ne d ascii)
        · rintro ⟨rfl⟩
          omega

theorem head_iff (reads : Reads source position (c :: rest)) (d : Char)
    (ascii : d.toNat < 0x80) : byteAt source position = some d ↔ c = d := by
  rw [reads.byteAt_iff d ascii, List.head?_cons, Option.some.injEq]

theorem pair_iff (reads : Reads source position (c :: rest)) (d e : Char)
    (ascii : d.toNat < 0x80) (alsoAscii : e.toNat < 0x80) :
    byteAt source position = some d ∧ byteAt source (position + 1) = some e ↔
      c = d ∧ rest.head? = some e := by
  rw [reads.head_iff d ascii]
  constructor
  · rintro ⟨rfl, next⟩
    have behind := reads.tail
    rw [utf8Size_of_ascii ascii] at behind
    exact ⟨rfl, (behind.byteAt_iff e alsoAscii).mp next⟩
  · rintro ⟨rfl, next⟩
    have behind := reads.tail
    rw [utf8Size_of_ascii ascii] at behind
    exact ⟨rfl, (behind.byteAt_iff e alsoAscii).mpr next⟩

theorem two_iff (reads : Reads source position text) (d e : Char)
    (ascii : d.toNat < 0x80) (alsoAscii : e.toNat < 0x80) :
    byteAt source position = some d ∧ byteAt source (position + 1) = some e ↔
      text.take 2 = [d, e] := by
  cases text with
  | nil => simp [reads.byteAt_iff d ascii]
  | cons c rest =>
      rw [reads.pair_iff d e ascii alsoAscii]
      cases rest <;> simp

theorem byteAt_class (reads : Reads source position text) {p : Char → Bool} (uniform : Uniform p) :
    (byteAt source position).map p = text.head?.map p := by
  cases text with
  | nil =>
      rw [reads.byteAt_nil]
      rfl
  | cons c rest =>
      rw [List.head?_cons]
      rcases reads.byte_cases with ⟨-, found⟩ | ⟨wide, d, found, isWide⟩
      · rw [found]
      · rw [found, Option.map_some, Option.map_some, uniform d c isWide wide]

theorem byteAt_any (reads : Reads source position text) {p : Char → Bool} (uniform : Uniform p) :
    (byteAt source position).any p = text.head?.any p := by
  have first := congrArg (Option.any id) (reads.byteAt_class uniform)
  rwa [Option.any_map, Option.any_map] at first

theorem byteAt_all (reads : Reads source position text) {p : Char → Bool} (uniform : Uniform p) :
    (byteAt source position).all p = Lexeme.endsOrStarts p text := by
  have first := congrArg (Option.all id) (reads.byteAt_class uniform)
  rwa [Option.all_map, Option.all_map] at first

theorem byteAt_filter (reads : Reads source position text) {p : Char → Bool}
    (ascii : ∀ c, p c = true → c.toNat < 0x80) :
    (byteAt source position).filter p = text.head?.filter p := by
  ext c
  simp only [Option.filter_eq_some_iff]
  constructor
  · rintro ⟨found, inClass⟩
    exact ⟨(reads.byteAt_iff c (ascii c inClass)).mp found, inClass⟩
  · rintro ⟨found, inClass⟩
    exact ⟨(reads.byteAt_iff c (ascii c inClass)).mpr found, inClass⟩

theorem skip_inside {β : Type} {f : Nat → β} (reads : Reads source position (c :: rest))
    (wide : 0x80 ≤ c.toNat)
    (passes : ∀ place, IsWide source place → f place = f (place + 1))
    {ahead : Nat} (inside : ahead ≤ c.utf8Size) :
    f (position + ahead) = f (position + c.utf8Size) := by
  induction more : c.utf8Size - ahead generalizing ahead with
  | zero =>
      obtain rfl : ahead = c.utf8Size := by omega
      rfl
  | succ more inductionHypothesis =>
      rw [passes _ (reads.isWide wide (by omega)), Nat.add_assoc]
      exact inductionHypothesis (by omega) (by omega)

/-- What goes on one byte at a time goes on behind the first character. -/
theorem skip {β : Type} {f : Nat → β} (reads : Reads source position (c :: rest))
    (passes : 0x80 ≤ c.toNat → ∀ place, IsWide source place → f place = f (place + 1)) :
    f (position + 1) = f (position + c.utf8Size) := by
  rcases reads.byte_cases with ⟨ascii, -⟩ | ⟨wide, -⟩
  · rw [utf8Size_of_ascii ascii]
  · exact reads.skip_inside wide (passes wide) c.utf8Size_pos

end Reads

theorem skipWhile_eq {source : List UInt8} {p : Char → Bool} (uniform : Uniform p)
    {position : Nat} {text : List Char} (reads : Reads source position text) :
    skipWhile source p position = position + Text.width (text.takeWhile p) := by
  induction text generalizing position with
  | nil =>
      rw [skipWhile, if_neg (by simp [reads.inside_iff])]
      rfl
  | cons c rest inductionHypothesis =>
      have first := reads.byteAt_any uniform
      rw [List.head?_cons, Option.any_some] at first
      by_cases inClass : p c = true
      · have goesOn : skipWhile source p position = skipWhile source p (position + 1) := by
          rw [skipWhile, if_pos ⟨reads.inside_iff.mpr (by simp), first.trans inClass⟩]
        have passes : 0x80 ≤ c.toNat → ∀ place, IsWide source place →
            skipWhile source p place = skipWhile source p (place + 1) := by
          rintro wide place ⟨d, found, isWide⟩
          have alsoInClass : p d = true := (uniform d c isWide wide).trans inClass
          rw [skipWhile, if_pos ⟨lt_of_byteAt found, by simp [found, alsoInClass]⟩]
        rw [goesOn, reads.skip passes, inductionHypothesis reads.tail,
          List.takeWhile_cons_of_pos inClass, Text.width_cons, Nat.add_assoc]
      · rw [skipWhile, if_neg, List.takeWhile_cons_of_neg inClass]
        · rfl
        · simp [first, inClass]

theorem skipLine_eq {source : List UInt8} {position : Nat} {text : List Char}
    (reads : Reads source position text) :
    skipLine source position = position + Text.width (text.take (Lexeme.lineComment text)) := by
  induction text generalizing position with
  | nil =>
      rw [skipLine, if_neg (by simp [reads.inside_iff])]
      rfl
  | cons c rest inductionHypothesis =>
      have inside : position < source.length := reads.inside_iff.mpr (by simp)
      have passes : ∀ place, IsWide source place →
          skipLine source place = skipLine source (place + 1) := by
        intro place wide
        rw [skipLine, if_pos wide.inside, if_neg]
        simp [wide.ne '\n' (by decide), wide.ne '?' (by decide)]
      have ends_iff := or_congr (reads.head_iff '\n' (by decide))
        (reads.pair_iff '?' '>' (by decide) (by decide))
      by_cases ends : c = '\n' ∨ (c = '?' ∧ rest.head? = some '>')
      · rw [skipLine, if_pos inside, if_pos (ends_iff.mpr ends), Lexeme.lineComment, if_pos ends]
        rfl
      · have goesOn : skipLine source position = skipLine source (position + 1) := by
          rw [skipLine, if_pos inside, if_neg (fun found => ends (ends_iff.mp found))]
        rw [goesOn, reads.skip (fun _ => passes), inductionHypothesis reads.tail,
          Lexeme.lineComment, if_neg ends, List.take_succ_cons, Text.width_cons, Nat.add_assoc]

theorem skipBlock_eq {source : List UInt8} {position : Nat} {text : List Char}
    (reads : Reads source position text) :
    skipBlock source position =
      (Lexeme.blockComment text).map fun more => position + Text.width (text.take more) := by
  induction text generalizing position with
  | nil =>
      rw [skipBlock, if_neg (by simp [reads.inside_iff])]
      rfl
  | cons c rest inductionHypothesis =>
      have inside : position < source.length := reads.inside_iff.mpr (by simp)
      have passes : ∀ place, IsWide source place →
          skipBlock source place = skipBlock source (place + 1) := by
        intro place wide
        rw [skipBlock, if_pos wide.inside, if_neg]
        exact fun found => wide.ne '*' (by decide) found.1
      have ends_iff := reads.pair_iff '*' '/' (by decide) (by decide)
      by_cases ends : c = '*' ∧ rest.head? = some '/'
      · rw [skipBlock, if_pos inside, if_pos (ends_iff.mpr ends), Lexeme.blockComment, if_pos ends]
        obtain ⟨rfl, next⟩ := ends
        obtain ⟨rest, rfl⟩ := List.head?_eq_some_iff.mp next
        rfl
      · have goesOn : skipBlock source position = skipBlock source (position + 1) := by
          rw [skipBlock, if_pos inside, if_neg (fun found => ends (ends_iff.mp found))]
        rw [goesOn, reads.skip (fun _ => passes), inductionHypothesis reads.tail,
          Lexeme.blockComment, if_neg ends]
        simp [Nat.add_assoc, Function.comp_def]

end AutoloadIndex.ByteLexer
