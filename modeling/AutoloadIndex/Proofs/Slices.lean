import Mathlib.Data.List.Forall2
import AutoloadIndex.Proofs.Blanking

set_option autoImplicit false

/-!
Blanking by slices. Ranges that lie in order between characters cut a text into slices, of which
every second one is blanked. In bytes, a blanked slice is as long as it was, and what changes in it
becomes a space and was no line break.
-/

namespace AutoloadIndex

namespace Text

def bytes (text : List Char) : List UInt8 := text.flatMap String.utf8EncodeChar

@[simp] theorem bytes_append (first second : List Char) :
    bytes (first ++ second) = bytes first ++ bytes second :=
  List.flatMap_append

@[simp] theorem length_bytes (text : List Char) : (bytes text).length = width text := by
  induction text with
  | nil => rfl
  | cons c rest inductionHypothesis =>
      rw [← List.singleton_append, bytes_append, List.length_append, inductionHypothesis]
      simp [bytes]

def IsBoundary (text : List Char) (offset : Nat) : Prop :=
  ∃ front back, text = front ++ back ∧ width front = offset

theorem IsBoundary.of_append {front text : List Char} {offset : Nat}
    (boundary : IsBoundary (front ++ text) (width front + offset)) : IsBoundary text offset := by
  obtain ⟨first, back, whole, width⟩ := boundary
  rcases List.append_eq_append_iff.mp whole with ⟨middle, rfl, rfl⟩ | ⟨middle, rfl, rfl⟩
  · refine ⟨middle, back, rfl, ?_⟩
    rw [width_append] at width
    omega
  · refine ⟨[], text, rfl, ?_⟩
    rw [width_append] at width
    rw [width_nil]
    omega

end Text

namespace Dialect

theorem disjointSpans_sublist (last : Nat) (spans : List Span) :
    List.Sublist (disjointSpans last spans) spans := by
  induction spans generalizing last with
  | nil => exact List.Sublist.refl _
  | cons span rest inductionHypothesis =>
      rw [disjointSpans]
      split
      · exact (inductionHypothesis last).cons span
      · exact (inductionHypothesis span.stop).cons_cons span

theorem disjointSpans_start {last : Nat} {spans : List Span}
    (filled : ∀ span ∈ spans, span.start < span.stop) :
    ∀ span ∈ disjointSpans last spans, last ≤ span.start := by
  induction spans generalizing last with
  | nil => simp [disjointSpans]
  | cons span rest inductionHypothesis =>
      rw [List.forall_mem_cons] at filled
      rw [disjointSpans]
      split
      case isTrue => exact inductionHypothesis filled.2
      case isFalse behind =>
          rw [List.forall_mem_cons]
          refine ⟨Nat.le_of_not_lt behind, ?_⟩
          intro other membership
          have order := inductionHypothesis filled.2 other membership
          omega

theorem disjointSpans_ordered {last : Nat} {spans : List Span}
    (filled : ∀ span ∈ spans, span.start < span.stop) :
    (disjointSpans last spans).Pairwise fun first second => first.stop ≤ second.start := by
  induction spans generalizing last with
  | nil => exact List.Pairwise.nil
  | cons span rest inductionHypothesis =>
      rw [List.forall_mem_cons] at filled
      rw [disjointSpans]
      split
      · exact inductionHypothesis filled.2
      · exact .cons (disjointSpans_start filled.2) (inductionHypothesis filled.2)

/-- A text cut at ranges, and what it becomes if the slices inside of them are blanked. -/
inductive Slices : Nat → List Span → List Char → List Char → Prop where
  | last {offset : Nat} {text : List Char} : Slices offset [] text text
  | span {offset : Nat} {span : Span} {spans : List Span} {kept taken text blanked : List Char}
      (start : span.start = offset + Text.width kept)
      (stop : span.stop = span.start + Text.width taken)
      (later : Slices span.stop spans text blanked) :
      Slices offset (span :: spans) (kept ++ (taken ++ text))
        (kept ++ (taken.flatMap blankChar ++ blanked))

theorem slices_blankFrom {offset : Nat} {spans : List Span} {text : List Char}
    (ordered : spans.Pairwise fun first second => first.stop ≤ second.start)
    (filled : ∀ span ∈ spans, span.start < span.stop)
    (behind : ∀ span ∈ spans, offset ≤ span.start)
    (starts : ∀ span ∈ spans, Text.IsBoundary text (span.start - offset))
    (stops : ∀ span ∈ spans, Text.IsBoundary text (span.stop - offset)) :
    Slices offset spans text (blankFrom offset spans text) := by
  induction spans generalizing offset text with
  | nil =>
      rw [blankFrom_nil]
      exact .last
  | cons span rest inductionHypothesis =>
      rw [List.pairwise_cons] at ordered
      rw [List.forall_mem_cons] at behind starts stops
      have isFilled := filled span List.mem_cons_self
      obtain ⟨kept, after, rfl, keptWidth⟩ := starts.1
      have start : span.start = offset + Text.width kept := by omega
      have isStop :
          Text.IsBoundary (kept ++ after) (Text.width kept + (span.stop - span.start)) := by
        have sum : span.stop - offset = Text.width kept + (span.stop - span.start) := by omega
        rw [← sum]
        exact stops.1
      obtain ⟨taken, text, rfl, takenWidth⟩ := isStop.of_append
      have stop : span.stop = span.start + Text.width taken := by omega
      have outside : ∀ other ∈ span :: rest, offset + Text.width kept ≤ other.start := by
        rw [List.forall_mem_cons]
        refine ⟨by omega, ?_⟩
        intro other membership
        have order := ordered.1 other membership
        omega
      -- The offsets of the later ranges, counted from the end of this one.
      have shifted : ∀ {place}, span.stop ≤ place →
          Text.IsBoundary (kept ++ (taken ++ text)) (place - offset) →
            Text.IsBoundary text (place - span.stop) := by
        intro place later boundary
        rw [← List.append_assoc] at boundary
        apply @Text.IsBoundary.of_append (kept ++ taken)
        have sum : place - offset = Text.width (kept ++ taken) + (place - span.stop) := by
          rw [Text.width_append]
          omega
        rwa [← sum]
      rw [blankFrom_outside filled outside, ← start,
        blankFrom_inside (Nat.le_refl _) (Nat.le_of_eq stop.symm), ← stop,
        blankFrom_passed (Nat.le_refl _)]
      apply Slices.span start stop
      apply inductionHypothesis ordered.2
      · intro other membership
        exact filled other (List.mem_cons_of_mem span membership)
      · exact ordered.1
      · intro other membership
        exact shifted (ordered.1 other membership) (starts.2 other membership)
      · intro other membership
        have isBehind := ordered.1 other membership
        have isFilled := filled other (List.mem_cons_of_mem span membership)
        exact shifted (by omega) (stops.2 other membership)

def Blanks (old new : UInt8) : Prop := old = new ∨ new = 0x20 ∧ old ≠ 0x0A ∧ old ≠ 0x0D

theorem toNat_of_mem_utf8EncodeChar {c : Char} {byte : UInt8}
    (membership : byte ∈ String.utf8EncodeChar c) (ascii : byte.toNat < 0x80) :
    byte.toNat = c.toNat := by
  have marked : ∀ {place mark : Nat}, 0x80 ≤ mark → place + mark < 0x100 →
      byte ≠ UInt8.ofNat (place + mark) := by
    intro place mark isMarked isByte equal
    rw [equal, UInt8.toNat_ofNat_of_lt' isByte] at ascii
    omega
  unfold String.utf8EncodeChar at membership
  extract_lets value at membership
  split at membership
  case isTrue small =>
      have isByte : value < 0x100 := by omega
      rw [List.mem_singleton.mp membership, UInt8.toNat_ofNat_of_lt' isByte]
      rfl
  case isFalse =>
      exfalso
      split at membership
      · simp only [List.mem_cons, List.not_mem_nil, or_false] at membership
        rcases membership with first | second
        · exact marked (by decide) (by omega) first
        · exact marked (by decide) (by omega) second
      split at membership
      · simp only [List.mem_cons, List.not_mem_nil, or_false] at membership
        rcases membership with first | second | third
        · exact marked (by decide) (by omega) first
        · exact marked (by decide) (by omega) second
        · exact marked (by decide) (by omega) third
      · simp only [List.mem_cons, List.not_mem_nil, or_false] at membership
        rcases membership with first | second | third | fourth
        · exact marked (by decide) (by omega) first
        · exact marked (by decide) (by omega) second
        · exact marked (by decide) (by omega) third
        · exact marked (by decide) (by omega) fourth

theorem blankChar_bytes (c : Char) :
    List.Forall₂ Blanks (String.utf8EncodeChar c) (Text.bytes (blankChar c)) := by
  have spaces : ∀ {old : List UInt8}, (∀ byte ∈ old, byte ≠ 0x0A ∧ byte ≠ 0x0D) →
      List.Forall₂ Blanks old (Text.bytes (List.replicate old.length ' ')) := by
    intro old kept
    induction old with
    | nil => exact .nil
    | cons byte rest inductionHypothesis =>
        rw [List.forall_mem_cons] at kept
        exact .cons (.inr ⟨rfl, kept.1⟩) (inductionHypothesis kept.2)
  unfold blankChar
  split
  case isTrue =>
      have same : Text.bytes [c] = String.utf8EncodeChar c := List.append_nil _
      rw [same, List.forall₂_same]
      exact fun byte _ => .inl rfl
  case isFalse noBreak =>
      rw [← String.length_utf8EncodeChar]
      apply spaces
      intro byte membership
      constructor
      · rintro rfl
        have code := toNat_of_mem_utf8EncodeChar membership (by decide)
        exact noBreak (.inl (Char.toNat_inj.mp code.symm))
      · rintro rfl
        have code := toNat_of_mem_utf8EncodeChar membership (by decide)
        exact noBreak (.inr (Char.toNat_inj.mp code.symm))

theorem blanks_bytes (text : List Char) :
    List.Forall₂ Blanks (Text.bytes text) (Text.bytes (text.flatMap blankChar)) := by
  induction text with
  | nil => exact List.Forall₂.nil
  | cons c rest inductionHypothesis =>
      rw [List.flatMap_cons, Text.bytes_append]
      exact List.rel_append (blankChar_bytes c) inductionHypothesis

namespace Slices

variable {offset : Nat} {spans : List Span} {text blanked : List Char}

theorem width (slices : Slices offset spans text blanked) :
    Text.width blanked = Text.width text := by
  induction slices with
  | last => rfl
  | span start stop later inductionHypothesis => simp [inductionHypothesis, blanks_width]

/-- Bytes change only inside the ranges, and into spaces. -/
theorem changed (slices : Slices offset spans text blanked) {i : Nat} {old new : UInt8}
    (isOld : (Text.bytes text)[i]? = some old) (isNew : (Text.bytes blanked)[i]? = some new)
    (differ : old ≠ new) :
    Blanks old new ∧ ∃ span ∈ spans, span.start ≤ offset + i ∧ offset + i < span.stop := by
  induction slices generalizing i with
  | last => exact absurd (Option.some.inj (isOld.symm.trans isNew)) differ
  | @span offset span spans kept taken text blanked start stop later inductionHypothesis =>
      simp only [Text.bytes_append, List.getElem?_append, Text.length_bytes, blanks_width]
        at isOld isNew
      by_cases isKept : i < Text.width kept
      · rw [if_pos isKept] at isOld isNew
        exact absurd (Option.some.inj (isOld.symm.trans isNew)) differ
      rw [if_neg isKept] at isOld isNew
      by_cases isTaken : i - Text.width kept < Text.width taken
      · rw [if_pos isTaken] at isOld isNew
        refine ⟨?_, span, List.mem_cons_self, by omega, by omega⟩
        obtain ⟨oldBound, rfl⟩ := List.getElem?_eq_some_iff.mp isOld
        obtain ⟨newBound, rfl⟩ := List.getElem?_eq_some_iff.mp isNew
        exact (blanks_bytes taken).get oldBound newBound
      · rw [if_neg isTaken] at isOld isNew
        obtain ⟨isBlank, other, membership, before, after⟩ := inductionHypothesis isOld isNew
        exact ⟨isBlank, other, List.mem_cons_of_mem span membership, by omega, by omega⟩

end Slices

end Dialect

end AutoloadIndex
