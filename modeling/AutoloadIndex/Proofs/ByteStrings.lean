import AutoloadIndex.Proofs.ByteReading
import AutoloadIndex.Proofs.ExtentLocality

set_option autoImplicit false

/-!
Strings on bytes. What a character does inside of a string is said once, and from it follows that a
string and its interpolations, read one inside the other, end where the stack of open frames is
empty.
-/

namespace AutoloadIndex.Lexeme

/-- What a character does inside of a string, together with a number of further ones: it closes the
frame, leaves it open, maybe changed, or opens another one inside of it. -/
inductive Turn where
  | closes
  | stays (next : Frame) (more : Nat)
  | opens (inner : Frame) (more : Nat)
deriving DecidableEq, Repr

def turn (top : Frame) (place : Nat) (c : Char) (rest : List Char) : Turn :=
  match top with
  | .quoted quote _ =>
    if c = '\\' then .stays top 1
    else if c = quote.mark then .closes
    else if quote.interpolates ∧ c = '{' ∧ rest.head? = some '$' then .opens (.braces 1 place) 0
    else if quote.interpolates ∧ c = '$' ∧ rest.head? = some '{' then
      .opens (.braces 1 (place + 1)) 1
    else .stays top 0
  | .braces depth opened =>
    if c = '{' then .stays (.braces (depth + 1) opened) 0
    else if c = '}' then if 1 < depth then .stays (.braces (depth - 1) opened) 0 else .closes
    else if c = '\'' then .opens (.quoted .single place) 0
    else if c = '"' then .opens (.quoted .double place) 0
    else .stays top 0

def resume (below : List Frame) (place : Nat) (text : List Char) : Except (LexFault × Nat) Nat :=
  match below with
  | [] => .ok place
  | outer :: others => literalEnd outer others place text

theorem literalEnd_nil (top : Frame) (below : List Frame) (place : Nat) :
    literalEnd top below place [] = .error top.fault := by
  rw [literalEnd.eq_def]

theorem literalEnd_cons (top : Frame) (below : List Frame) (place : Nat) (c : Char)
    (rest : List Char) :
    literalEnd top below place (c :: rest) =
      match turn top place c rest with
      | .closes => resume below (place + 1) rest
      | .stays next more => literalEnd next below (place + (more + 1)) (rest.drop more)
      | .opens inner more =>
        literalEnd inner (top :: below) (place + (more + 1)) (rest.drop more) := by
  rw [literalEnd.eq_def]
  cases top with
  | quoted quote opened =>
      simp only [turn]
      by_cases escape : c = '\\'
      · simp only [if_pos escape]
        cases rest with
        | nil => exact (literalEnd_nil _ _ _).symm
        | cons d more => rfl
      by_cases closing : c = quote.mark
      · simp only [if_neg escape, if_pos closing]
        cases below <;> rfl
      by_cases braced : quote.interpolates ∧ c = '{' ∧ rest.head? = some '$'
      · simp only [if_neg escape, if_neg closing, if_pos braced]
        rfl
      simp only [if_neg escape, if_neg closing, if_neg braced]
      by_cases dollar : quote.interpolates ∧ c = '$'
      · cases rest with
        | nil => simp [dollar, literalEnd_nil]
        | cons d more => by_cases opening : d = '{' <;> simp [dollar, opening]
      · have noBrace : ¬ (quote.interpolates ∧ c = '$' ∧ rest.head? = some '{') :=
          fun opens => dollar ⟨opens.1, opens.2.1⟩
        simp only [if_neg dollar, if_neg noBrace]
        rfl
  | braces depth opened =>
      simp only [turn]
      by_cases opening : c = '{'
      · simp only [if_pos opening]
        rfl
      by_cases closing : c = '}'
      · by_cases deep : 1 < depth
        · simp only [if_neg opening, if_pos closing, if_pos deep]
          rfl
        · simp only [if_neg opening, if_pos closing, if_neg deep]
          cases below <;> rfl
      by_cases single : c = '\''
      · simp only [if_neg opening, if_neg closing, if_pos single]
        rfl
      by_cases double : c = '"'
      · simp only [if_neg opening, if_neg closing, if_neg single, if_pos double]
        rfl
      simp only [if_neg opening, if_neg closing, if_neg single, if_neg double]
      rfl

/-- Braces are counted from one on. -/
def Frame.Counted : Frame → Prop
  | quoted _ _ => True
  | braces depth _ => 0 < depth

theorem turn_stays {top next : Frame} {place more : Nat} {c : Char} {rest : List Char}
    (stays : turn top place c rest = .stays next more) :
    next.fault = top.fault ∧ (top.Counted → next.Counted) := by
  unfold turn at stays
  cases top with
  | quoted quote opened =>
      simp only at stays
      split at stays
      · cases stays
        exact ⟨rfl, id⟩
      split at stays
      · cases stays
      split at stays
      · cases stays
      split at stays
      · cases stays
      · cases stays
        exact ⟨rfl, id⟩
  | braces depth opened =>
      simp only at stays
      split at stays
      · cases stays
        exact ⟨rfl, fun _ => Nat.succ_pos depth⟩
      split at stays
      · split at stays
        case isTrue deep =>
            cases stays
            exact ⟨rfl, fun _ => Nat.sub_pos_of_lt deep⟩
        case isFalse => cases stays
      split at stays
      · cases stays
      split at stays
      · cases stays
      · cases stays
        exact ⟨rfl, id⟩

theorem turn_opens {top inner : Frame} {place more : Nat} {c : Char} {rest : List Char}
    (opens : turn top place c rest = .opens inner more) :
    (∃ quote, inner = .quoted quote (place + more) ∧
        (c :: rest).drop more = quote.mark :: rest.drop more) ∨
      inner = .braces 1 (place + more) ∧ (c :: rest).drop more = '{' :: rest.drop more := by
  unfold turn at opens
  cases top with
  | quoted quote opened =>
      simp only at opens
      split at opens
      · cases opens
      split at opens
      · cases opens
      split at opens
      case isTrue braced =>
          cases opens
          exact .inr ⟨rfl, by rw [braced.2.1]; rfl⟩
      split at opens
      case isTrue dollar =>
          cases opens
          obtain ⟨more, rfl⟩ := List.head?_eq_some_iff.mp dollar.2.2
          exact .inr ⟨rfl, rfl⟩
      case isFalse => cases opens
  | braces depth opened =>
      simp only at opens
      split at opens
      · cases opens
      split at opens
      · split at opens <;> cases opens
      split at opens
      case isTrue single =>
          cases opens
          exact .inl ⟨.single, rfl, by rw [single]; rfl⟩
      split at opens
      case isTrue double =>
          cases opens
          exact .inl ⟨.double, rfl, by rw [double]; rfl⟩
      case isFalse => cases opens

theorem lt_of_drop {whole rest : List Char} {place : Nat} {c : Char}
    (text : whole.drop place = c :: rest) : place < whole.length := by
  have filled : whole.drop place ≠ [] := by simp [text]
  simpa using filled

theorem drop_behind {whole rest : List Char} {place : Nat} {c : Char}
    (text : whole.drop place = c :: rest) (more : Nat) :
    whole.drop (place + (more + 1)) = rest.drop more := by
  rw [← List.drop_drop, text, List.drop_succ_cons]

/-- The end of a frame is where the frame around it goes on. -/
theorem literalEnd_resume {whole : List Char} (top : Frame) (below : List Frame) (place : Nat) :
    literalEnd top below place (whole.drop place) =
      (literalEnd top [] place (whole.drop place)).bind fun stop =>
        resume below stop (whole.drop stop) := by
  induction size : whole.length - place using Nat.strongRecOn generalizing top below place with
  | ind _ inductionHypothesis =>
      subst size
      cases text : whole.drop place with
      | nil =>
          rw [literalEnd_nil, literalEnd_nil]
          rfl
      | cons c rest =>
          have inside := lt_of_drop text
          have behind := drop_behind text
          rw [literalEnd_cons, literalEnd_cons]
          cases turn top place c rest with
          | closes =>
              have next := behind 0
              rw [List.drop_zero] at next
              simp only [resume, Except.bind, next]
          | stays next more =>
              simp only
              rw [← behind]
              exact inductionHypothesis _ (by omega) next below _ rfl
          | opens inner more =>
              simp only
              rw [← behind, inductionHypothesis _ (by omega) inner (top :: below) _ rfl,
                inductionHypothesis _ (by omega) inner [top] _ rfl]
              cases ended : literalEnd inner [] (place + (more + 1))
                  (whole.drop (place + (more + 1))) with
              | error fault => rfl
              | ok stop =>
                  have bounds := literalEnd_bounds ended
                  exact inductionHypothesis _ (by omega) top below stop rfl

end AutoloadIndex.Lexeme

namespace AutoloadIndex.ByteLexer

open Lexeme (Quote)

def offsetOf (start : Nat) (whole : List Char) (place : Nat) : Nat :=
  start + Text.width (whole.take place)

def located (start : Nat) (whole : List Char) :
    Except (LexFault × Nat) Nat → Except Failure Nat
  | .ok stop => .ok (offsetOf start whole stop)
  | .error (fault, place) => .error (.fault ⟨fault, offsetOf start whole place⟩)

section Literals

open Lexeme (Frame turn literalEnd)

variable {source : List UInt8} {start : Nat} {whole : List Char}

def skipFrame (source : List UInt8) (start : Nat) (whole : List Char) :
    Frame → Nat → Except Failure Nat
  | .quoted quote opened => skipQuoted source quote (offsetOf start whole opened)
  | .braces depth opened => skipInterpolation source (offsetOf start whole opened) depth

theorem offsetOf_add (start : Nat) (whole : List Char) (place more : Nat) :
    offsetOf start whole (place + more) =
      offsetOf start whole place + Text.width ((whole.drop place).take more) := by
  unfold offsetOf
  rw [List.take_add, Text.width_append, Nat.add_assoc]

theorem offsetOf_succ {rest : List Char} {place : Nat} {c : Char}
    (text : whole.drop place = c :: rest) :
    offsetOf start whole (place + 1) = offsetOf start whole place + c.utf8Size := by
  rw [offsetOf_add, text]
  rfl

theorem offsetOf_lt {place stop : Nat} (order : place < stop) (inside : stop ≤ whole.length) :
    offsetOf start whole place < offsetOf start whole stop := by
  obtain ⟨more, rfl⟩ := Nat.exists_eq_add_of_lt order
  have behind : whole.drop place ≠ [] := by simp; omega
  obtain ⟨c, rest, text⟩ := List.exists_cons_of_ne_nil behind
  have positive := c.utf8Size_pos
  rw [Nat.add_assoc, offsetOf_add, text, List.take_succ_cons, Text.width_cons]
  omega

theorem Reads.drop (reads : Reads source start whole) (place : Nat) :
    Reads source (offsetOf start whole place) (whole.drop place) := by
  rw [← List.take_append_drop place whole] at reads
  exact reads.later

theorem mark_ascii (quote : Quote) : quote.mark.toNat < 0x80 := by
  cases quote <;> decide

theorem skipQuoted_wide {quote : Quote} {opened place : Nat} (wide : IsWide source place) :
    skipQuoted source quote opened place = skipQuoted source quote opened (place + 1) := by
  rw [skipQuoted, if_pos wide.inside, if_neg (wide.ne '\\' (by decide)),
    if_neg (wide.ne quote.mark (mark_ascii quote)), if_neg, if_neg]
  · exact fun found => wide.ne '$' (by decide) found.2.1
  · exact fun found => wide.ne '{' (by decide) found.2.1

theorem skipInterpolation_wide {opened depth place : Nat} (wide : IsWide source place) :
    skipInterpolation source opened depth place =
      skipInterpolation source opened depth (place + 1) := by
  rw [skipInterpolation, if_pos wide.inside, if_neg (wide.ne '{' (by decide)),
    if_neg (wide.ne '}' (by decide)), if_neg (wide.ne '\'' (by decide)),
    if_neg (wide.ne '"' (by decide))]

theorem skipFrame_nil {top : Frame} {position : Nat}
    (ended : Reads source position []) :
    skipFrame source start whole top position = located start whole (.error top.fault) := by
  have outside : ¬ position < source.length := by simp [ended.inside_iff]
  cases top with
  | quoted quote opened =>
      unfold skipFrame
      simp only
      rw [skipQuoted, if_neg outside]
      rfl
  | braces depth opened =>
      unfold skipFrame
      simp only
      rw [skipInterpolation, if_neg outside]
      rfl

theorem skipInterpolation_brace {opened depth position : Nat}
    (found : byteAt source position = some '{') :
    skipInterpolation source opened depth position =
      skipInterpolation source opened (depth + 1) (position + 1) := by
  rw [skipInterpolation, if_pos (lt_of_byteAt found), if_pos found]

def skipTurn (source : List UInt8) (start : Nat) (whole : List Char) (top : Frame) (place : Nat) :
    Lexeme.Turn → Except Failure Nat
  | .closes => .ok (offsetOf start whole (place + 1))
  | .stays next more =>
    skipFrame source start whole next (offsetOf start whole (place + (more + 1)))
  | .opens inner more =>
    (skipFrame source start whole inner (offsetOf start whole (place + (more + 1)))).bind
      fun next =>
        if offsetOf start whole place < next then skipFrame source start whole top next
        else .error .stuck

theorem skipQuoted_turn (reads : Reads source start whole) {quote : Quote} {opened place : Nat}
    {c : Char} {rest : List Char} (text : whole.drop place = c :: rest) :
    skipFrame source start whole (.quoted quote opened) (offsetOf start whole place) =
      skipTurn source start whole (.quoted quote opened) place
        (turn (.quoted quote opened) place c rest) := by
  have here := reads.drop place
  rw [text] at here
  have inside : offsetOf start whole place < source.length := here.inside_iff.mpr (by simp)
  have next := @offsetOf_succ start _ _ _ _ text
  have passes : ∀ position, IsWide source position →
      skipQuoted source quote (offsetOf start whole opened) position =
        skipQuoted source quote (offsetOf start whole opened) (position + 1) :=
    fun position wide => skipQuoted_wide wide
  have escape_iff := here.head_iff '\\' (by decide)
  have closing_iff := here.head_iff quote.mark (mark_ascii quote)
  have braced_iff := here.pair_iff '{' '$' (by decide) (by decide)
  have dollar_iff := here.pair_iff '$' '{' (by decide) (by decide)
  unfold turn skipFrame
  simp only
  rw [skipQuoted, if_pos inside]
  by_cases escape : c = '\\'
  · -- The hidden byte starts the next character, whose other bytes are passed one by one.
    rw [if_pos escape, if_pos (escape_iff.mpr escape), skipTurn]
    rw [escape, utf8Size_of_ascii (by decide)] at next
    have second := reads.drop (place + 1)
    rw [next] at second
    cases behind : whole.drop (place + 1) with
    | nil =>
        have third := reads.drop (place + (1 + 1))
        rw [behind] at second
        rw [← Nat.add_assoc, ← List.drop_drop, behind, List.drop_nil] at third
        have overshot :=
          @skipFrame_nil source start whole (.quoted quote opened) _ (second.beyond 1)
        exact overshot.trans (skipFrame_nil third).symm
    | cons d more =>
        rw [behind] at second
        rw [← Nat.add_assoc, offsetOf_succ behind, next]
        exact second.skip fun _ => passes
  rw [if_neg escape, if_neg (mt escape_iff.mp escape)]
  by_cases closing : c = quote.mark
  · rw [if_pos closing, if_pos (closing_iff.mpr closing)]
    rw [closing, utf8Size_of_ascii (mark_ascii quote)] at next
    rw [skipTurn, next]
  rw [if_neg closing, if_neg (mt closing_iff.mp closing)]
  by_cases braced : quote.interpolates ∧ c = '{' ∧ rest.head? = some '$'
  · obtain ⟨interpolates, brace⟩ := braced
    have isBrace := braced_iff.mpr brace
    rw [if_pos ⟨interpolates, isBrace⟩, if_pos ⟨interpolates, brace⟩,
      skipInterpolation_brace isBrace.1]
    rw [brace.1, utf8Size_of_ascii (by decide)] at next
    rw [skipTurn, Nat.zero_add, next]
    rfl
  rw [if_neg braced, if_neg (fun found => braced ⟨found.1, braced_iff.mp found.2⟩)]
  by_cases dollar : quote.interpolates ∧ c = '$' ∧ rest.head? = some '{'
  · obtain ⟨interpolates, isDollar, brace⟩ := dollar
    obtain ⟨more, rfl⟩ := List.head?_eq_some_iff.mp brace
    have marks := dollar_iff.mpr ⟨isDollar, brace⟩
    rw [if_pos ⟨interpolates, marks⟩, if_pos ⟨interpolates, isDollar, brace⟩,
      skipInterpolation_brace marks.2]
    rw [isDollar, utf8Size_of_ascii (by decide)] at next
    have behind : whole.drop (place + 1) = '{' :: more := Lexeme.drop_behind text 0
    have afterNext := @offsetOf_succ start _ _ _ _ behind
    rw [utf8Size_of_ascii (by decide), next] at afterNext
    have isFrame : skipFrame source start whole (.braces 1 (place + 1)) =
        skipInterpolation source (offsetOf start whole place + 1) 1 := by
      rw [← next]
      rfl
    rw [skipTurn, ← Nat.add_assoc, afterNext, isFrame]
    rfl
  rw [if_neg dollar, if_neg (fun found => dollar ⟨found.1, dollar_iff.mp found.2⟩),
    here.skip (fun _ => passes), ← next]
  rfl

theorem skipInterpolation_turn (reads : Reads source start whole) {depth opened place : Nat}
    {c : Char} {rest : List Char} (text : whole.drop place = c :: rest) (counted : 0 < depth) :
    skipFrame source start whole (.braces depth opened) (offsetOf start whole place) =
      skipTurn source start whole (.braces depth opened) place
        (turn (.braces depth opened) place c rest) := by
  have here := reads.drop place
  rw [text] at here
  have inside : offsetOf start whole place < source.length := here.inside_iff.mpr (by simp)
  have next := @offsetOf_succ start _ _ _ _ text
  have one : ∀ {d : Char}, c = d → d.toNat < 0x80 →
      offsetOf start whole (place + (0 + 1)) = offsetOf start whole place + 1 := by
    rintro d rfl ascii
    rw [Nat.zero_add, next, utf8Size_of_ascii ascii]
  unfold turn skipFrame
  simp only
  rw [skipInterpolation, if_pos inside]
  by_cases opening : c = '{'
  · rw [if_pos ((here.head_iff '{' (by decide)).mpr opening), if_pos opening, skipTurn,
      one opening (by decide)]
    rfl
  rw [if_neg (mt (here.head_iff '{' (by decide)).mp opening), if_neg opening]
  by_cases closing : c = '}'
  · rw [if_pos ((here.head_iff '}' (by decide)).mpr closing), if_pos closing, if_neg (by omega)]
    have behind := one closing (by decide)
    by_cases deep : 1 < depth
    · rw [if_neg (by omega), if_pos deep, skipTurn, behind]
      rfl
    · rw [if_pos (by omega), if_neg deep, skipTurn, ← behind]
  rw [if_neg (mt (here.head_iff '}' (by decide)).mp closing), if_neg closing]
  by_cases single : c = '\''
  · rw [if_pos ((here.head_iff '\'' (by decide)).mpr single), if_pos single, skipTurn,
      one single (by decide)]
    rfl
  rw [if_neg (mt (here.head_iff '\'' (by decide)).mp single), if_neg single]
  by_cases double : c = '"'
  · rw [if_pos ((here.head_iff '"' (by decide)).mpr double), if_pos double, skipTurn,
      one double (by decide)]
    rfl
  rw [if_neg (mt (here.head_iff '"' (by decide)).mp double), if_neg double,
    skipTurn, Nat.zero_add, next]
  exact here.skip fun _ place wide => skipInterpolation_wide wide

theorem skipFrame_eq (reads : Reads source start whole) {top : Frame} (counted : top.Counted)
    (place : Nat) :
    skipFrame source start whole top (offsetOf start whole place) =
      located start whole (literalEnd top [] place (whole.drop place)) := by
  induction size : whole.length - place using Nat.strongRecOn generalizing top place with
  | ind _ inductionHypothesis =>
      subst size
      cases text : whole.drop place with
      | nil =>
          have here := reads.drop place
          rw [text] at here
          rw [skipFrame_nil here, Lexeme.literalEnd_nil]
      | cons c rest =>
          have inside := Lexeme.lt_of_drop text
          have behind := Lexeme.drop_behind text
          have turns : skipFrame source start whole top (offsetOf start whole place) =
              skipTurn source start whole top place (turn top place c rest) := by
            cases top with
            | quoted quote opened => exact skipQuoted_turn reads text
            | braces depth opened => exact skipInterpolation_turn reads text counted
          rw [turns, Lexeme.literalEnd_cons]
          cases isTurn : turn top place c rest with
          | closes => rfl
          | stays next more =>
              simp only
              rw [← behind]
              exact inductionHypothesis _ (by omega) ((Lexeme.turn_stays isTurn).2 counted) _ rfl
          | opens inner more =>
              simp only
              have innerCounted : inner.Counted := by
                rcases Lexeme.turn_opens isTurn with ⟨quote, rfl, -⟩ | ⟨rfl, -⟩
                · trivial
                · exact Nat.one_pos
              have innerEnd := inductionHypothesis (whole.length - (place + (more + 1))) (by omega)
                innerCounted _ rfl
              rw [← behind, skipTurn, innerEnd, Lexeme.literalEnd_resume inner [top]]
              cases ended : literalEnd inner [] (place + (more + 1))
                  (whole.drop (place + (more + 1))) with
              | error fault => rfl
              | ok stop =>
                  have bounds := Lexeme.literalEnd_bounds ended
                  rw [List.length_drop] at bounds
                  have forward : offsetOf start whole place < offsetOf start whole stop :=
                    offsetOf_lt (by omega) (by omega)
                  refine (if_pos forward).trans ?_
                  exact inductionHypothesis _ (by omega) counted stop rfl

end Literals

end AutoloadIndex.ByteLexer
