import Mathlib.Data.List.Basic
import AutoloadIndex.Proofs.BraceBalance
import AutoloadIndex.Proofs.Decoding
import AutoloadIndex.Proofs.Headerless
import AutoloadIndex.Proofs.Lookahead

set_option autoImplicit false

/-!
The end of a program. A call of `__halt_compiler` ends it wherever a statement can start outside all
blocks; data may follow. The scan does not come by the data, but the lexer reads it: the data changes
the result if it does not lex as code, and in no other way.
-/

namespace AutoloadIndex

namespace Text

section Ascii

variable {a : UInt8} (ascii : a < 0x80)

include ascii

theorem isTail_ascii : isTail a = false := by
  simp [isTail, UInt8.not_le.mpr ascii]

theorem opensThree_ascii (lead : UInt8) : opensThree lead a = false := by
  have low : ¬ 0x80 ≤ a := UInt8.not_le.mpr ascii
  have lower : ¬ 0xA0 ≤ a := fun high => low (UInt8.le_trans (by decide) high)
  simp [opensThree, isTail_ascii ascii, low, lower]

theorem opensFour_ascii (lead : UInt8) : opensFour lead a = false := by
  have low : ¬ 0x80 ≤ a := UInt8.not_le.mpr ascii
  have lower : ¬ 0x90 ≤ a := fun high => low (UInt8.le_trans (by decide) high)
  simp [opensFour, isTail_ascii ascii, low, lower]

/-- A character of ASCII is never part of another one, so bytes may be decoded apart in front of
it. -/
theorem decode_append_ascii (front rest : List UInt8) :
    decode (front ++ a :: rest) = decode front ++ decode (a :: rest) := by
  have notTail := isTail_ascii ascii
  have notThree := opensThree_ascii ascii
  have notFour := opensFour_ascii ascii
  fun_induction decode front
  case case1 => rfl
  case case2 b =>
    rw [List.singleton_append, decode.eq_def]
    by_cases low : b < 0x80 <;> simp [notTail, notThree, notFour, low]
  case case9 | case10 | case11 =>
    -- The decoder looks at the fourth byte, which may be the first one behind `a`.
    cases rest <;> simp only [List.cons_append, List.nil_append] at * <;> rw [decode.eq_def] <;>
      grind
  all_goals
    simp only [List.cons_append, List.nil_append] at *
    rw [decode.eq_def]
    grind

end Ascii

theorem decode_asciiText (cs : List Char) (ascii : ∀ c ∈ cs, c.toNat < 0x80) (rest : List UInt8) :
    decode (cs.map (fun c => c.toNat.toUInt8) ++ rest) = cs ++ decode rest := by
  induction cs with
  | nil => rfl
  | cons c cs inductionHypothesis =>
      rw [List.forall_mem_cons] at ascii
      have byte : c.toNat.toUInt8.toNat = c.toNat := by
        rw [Nat.toUInt8_eq, UInt8.toNat_ofNat']
        omega
      have low : c.toNat.toUInt8 < 0x80 := by
        rw [UInt8.lt_iff_toNat_lt, byte]
        exact ascii.1
      rw [List.map_cons, List.cons_append, decode_ascii low, byte, Char.ofNat_toNat,
        inductionHypothesis ascii.2, List.cons_append]

end Text

namespace Lexeme

def haltWord : List Char :=
  ['_', '_', 'h', 'a', 'l', 't', '_', 'c', 'o', 'm', 'p', 'i', 'l', 'e', 'r']

def haltCall : List Char := haltWord ++ ['(', ')', ';']

def haltLexemes (offset : Nat) : List Lexeme := [
  ⟨.ident haltWord, offset, offset + 15⟩, ⟨.punct '(', offset + 15, offset + 16⟩,
  ⟨.punct ')', offset + 16, offset + 17⟩, ⟨.punct ';', offset + 17, offset + 18⟩]

theorem reaches_haltCall (offset : Nat) (rest : List Char) :
    Reaches rest .code offset haltCall (haltLexemes offset) .code := by
  have word : piece .code '_' (haltWord.tail ++ (['(', ')', ';'] ++ rest)) =
      .ok (.lexeme (.ident haltWord) haltWord.tail.length) := rfl
  have opening : piece .code '(' ([] ++ ([')', ';'] ++ rest)) = .ok (.lexeme (.punct '(') 0) := rfl
  have closing : piece .code ')' ([] ++ ([';'] ++ rest)) = .ok (.lexeme (.punct ')') 0) := rfl
  have semicolon : piece .code ';' ([] ++ ([] ++ rest)) = .ok (.lexeme (.punct ';') 0) := rfl
  exact .lexeme word (.lexeme opening (.lexeme closing (.lexeme semicolon .here)))

section Ahead

variable {lexemes more : List Lexeme} {n : Nat} (near : n < lexemes.length)

include near

theorem ahead_append : ahead (lexemes ++ more) n = ahead lexemes n := by
  unfold ahead
  rw [List.getElem?_append_left near]

theorem nameAhead_append : nameAhead (lexemes ++ more) n = nameAhead lexemes n := by
  unfold nameAhead
  rw [ahead_append near]

theorem punctAhead_append (marks : List Char) :
    punctAhead marks (lexemes ++ more) n = punctAhead marks lexemes n := by
  unfold punctAhead
  rw [ahead_append near]

theorem wordAhead_append (word : String) :
    wordAhead word (lexemes ++ more) n = wordAhead word lexemes n := by
  unfold wordAhead
  rw [ahead_append near]

end Ahead

end Lexeme

namespace Dialect

open Lexeme (haltCall)

theorem isPrefixOf_append_of_take {word text other : List Char} (front : List Char)
    (same : text.take word.length = other.take word.length) :
    word.isPrefixOf (front ++ text) = word.isPrefixOf (front ++ other) := by
  have byTake : ∀ cs : List Char, word.isPrefixOf cs = decide (cs.take word.length = word) := by
    intro cs
    rw [Bool.eq_iff_iff, List.isPrefixOf_iff_prefix, List.prefix_iff_eq_take, decide_eq_true_eq]
    exact eq_comm
  rw [byTake, byTake, List.take_append, List.take_append,
    Lexeme.take_of_take (Nat.sub_le _ _) same]

/-- Whether a file starts in code is decided in front of a call that ends the program, if that is
not in the first line of a script. -/
theorem startsInCode_halted (path : Path) {front : List Char}
    (wholeLine : ['#', '!'].isPrefixOf front → '\n' ∈ front) (data : List Char) :
    startsInCode path (front ++ (haltCall ++ data)) = startsInCode path (front ++ haltCall) := by
  have script : ∀ more, ['#', '!'].isPrefixOf (front ++ (haltCall ++ more)) =
      ['#', '!'].isPrefixOf front := by
    intro more
    match front with
    | [] => rfl
    | [c] => simp [List.isPrefixOf, haltCall, Lexeme.haltWord]
    | c :: d :: front => rfl
  have body : ∃ back, ∀ more, afterShebang (front ++ (haltCall ++ more)) =
      back ++ (haltCall ++ more) := by
    by_cases isScript : ['#', '!'].isPrefixOf front
    · obtain ⟨line, back, rfl, oneLine⟩ := List.eq_append_cons_of_mem (wholeLine isScript)
      refine ⟨back, ?_⟩
      intro more
      have skipped : ∀ c ∈ line, (c != '\n') = true := by
        intro c membership
        rw [bne_iff_ne]
        rintro rfl
        exact oneLine membership
      unfold afterShebang
      rw [script, if_pos isScript, List.append_assoc, List.dropWhile_append_of_pos skipped]
      rfl
    · refine ⟨front, ?_⟩
      intro more
      unfold afterShebang
      rw [script, if_neg isScript]
  obtain ⟨back, body⟩ := body
  have opened : ∀ more, ['<', '?'].isPrefixOf
      ((back ++ (haltCall ++ more)).dropWhile Text.isBlank) =
        ['<', '?'].isPrefixOf (back.dropWhile Text.isBlank ++ haltCall) := by
    intro more
    have notBlank : (haltCall ++ more).dropWhile Text.isBlank = haltCall ++ more := rfl
    have dropped : (back ++ (haltCall ++ more)).dropWhile Text.isBlank =
        back.dropWhile Text.isBlank ++ (haltCall ++ more) := by
      rw [List.dropWhile_append, notBlank]
      split
      case isTrue empty => rw [List.isEmpty_iff.mp empty, List.nil_append]
      case isFalse => rfl
    rw [dropped]
    exact isPrefixOf_append_of_take _ rfl
  have plain := body []
  rw [List.append_nil] at plain
  have opening := opened []
  rw [List.append_nil] at opening
  simp only [startsInCode, body, plain, opened, opening]

end Dialect

namespace FactScan

open Lexeme

namespace State

section Element

variable {mark : Lexeme} {c : Char} (isMark : mark.token = .punct c) (stops : ¬ (c = ':' ∨ c = '-'))

include isMark stops

theorem elementText_append (stop : Nat) (lexemes more : List Lexeme) :
    elementText stop (lexemes ++ mark :: more) = elementText stop (lexemes ++ [mark]) := by
  induction lexemes generalizing stop with
  | nil => simp only [List.nil_append, elementText, isMark, if_neg stops]
  | cons lexeme rest inductionHypothesis =>
      simp only [List.cons_append, elementText]
      split
      case isTrue => rfl
      case isFalse => cases lexeme.token <;> simp only [inductionHypothesis]

theorem elementName_append {lexemes : List Lexeme} (nonempty : lexemes ≠ [])
    (more : List Lexeme) :
    elementName (lexemes ++ mark :: more) = elementName (lexemes ++ [mark]) := by
  cases lexemes with
  | nil => exact absurd rfl nonempty
  | cons colon rest =>
      simp only [List.cons_append, elementName, elementText_append isMark stops colon.stop rest more]

end Element

theorem functionName_append {lexemes : List Lexeme} (near : 2 < lexemes.length)
    (more : List Lexeme) : functionName (lexemes ++ more) = functionName lexemes := by
  cases lexemes with
  | nil => simp at near
  | cons first rest =>
      rw [List.length_cons] at near
      have mark : punctAhead ['&'] (first :: rest ++ more) 0 = punctAhead ['&'] (first :: rest) 0 :=
        rfl
      unfold functionName
      rw [mark]
      cases punctAhead ['&'] (first :: rest) 0 with
      | true =>
          simp only [if_true, List.cons_append, List.tail_cons]
          rw [punctAhead_append (by omega), nameAhead_append (by omega)]
      | false =>
          simp only [Bool.false_eq_true, if_false]
          rw [punctAhead_append (by simp only [List.length_cons]; omega),
            nameAhead_append (by simp)]

theorem definedName_append {lexemes : List Lexeme} (near : 2 < lexemes.length)
    (more : List Lexeme) : definedName (lexemes ++ more) = definedName lexemes := by
  unfold definedName
  rw [ahead_append (by omega), punctAhead_append (by omega), punctAhead_append near]

theorem declared_append (state : State) (keyword : Keyword) {lexemes more : List Lexeme}
    (length : 1 < lexemes.length)
    (element : punctAhead [':'] lexemes 0 → elementName (lexemes ++ more) = elementName lexemes)
    (function : functionName (lexemes ++ more) = functionName lexemes)
    (defined : definedName (lexemes ++ more) = definedName lexemes) :
    state.declared keyword (lexemes ++ more) = state.declared keyword lexemes := by
  have near : ∀ n ≤ 1, n < lexemes.length := fun n short => by omega
  have className : className (lexemes ++ more) = className lexemes := by
    simp only [State.className, nameAhead_append (near 0 (by decide)),
      wordAhead_append (near 0 (by decide))]
  have mark : punctAhead [':'] (lexemes ++ more) 0 = punctAhead [':'] lexemes 0 :=
    punctAhead_append (near 0 (by decide)) _
  cases keyword with
  | classDecl =>
      simp only [declared, mark, className]
      split
      case isTrue colon => rw [element colon]
      case isFalse => rfl
  | interfaceDecl => simp only [declared, className]
  | traitDecl => simp only [declared, className]
  | enumDecl =>
      simp only [declared, enumName, nameAhead_append (near 0 (by decide)),
        punctAhead_append (near 1 (by decide)), wordAhead_append (near 1 (by decide))]
  | functionDecl => simp only [declared, function]
  | typeDecl =>
      have opens : opensAlias (lexemes ++ more) = opensAlias lexemes := by
        simp only [opensAlias, punctAhead_append (near 1 (by decide)),
          wordAhead_append (near 1 (by decide))]
      simp only [declared, aliasName, opens, nameAhead_append (near 0 (by decide))]
  | defineCall => simp only [declared, defined]
  | _ => rfl

theorem enter_append (state : State) (keyword : Keyword) {lexemes : List Lexeme}
    (length : 1 < lexemes.length) (more : List Lexeme) :
    state.enter keyword (lexemes ++ more) = state.enter keyword lexemes := by
  have near : ∀ n ≤ 1, n < lexemes.length := fun n short => by omega
  cases keyword with
  | namespaceScope =>
      simp only [enter, inNamespace, nameAhead_append (near 0 (by decide)),
        punctAhead_append (near 0 (by decide)), punctAhead_append (near 1 (by decide))]
  | _ => rfl

variable {lexemes : List Lexeme} {offset : Nat}

theorem length_halted (lexemes : List Lexeme) (offset : Nat) :
    3 < (lexemes ++ haltLexemes offset).length := by
  simp only [List.length_append, haltLexemes, List.length_cons, List.length_nil]
  omega

theorem declared_halted (state : State) (keyword : Keyword) (data : List Lexeme) :
    state.declared keyword (lexemes ++ haltLexemes offset ++ data) =
      state.declared keyword (lexemes ++ haltLexemes offset) := by
  have length := length_halted lexemes offset
  have element : elementName (lexemes ++ haltLexemes offset ++ data) =
      elementName (lexemes ++ haltLexemes offset) := by
    have isMark : (Lexeme.mk (.punct '(') (offset + 15) (offset + 16)).token = .punct '(' := rfl
    have nonempty : lexemes ++ [⟨.ident haltWord, offset, offset + 15⟩] ≠ [] := by simp
    have whole : lexemes ++ haltLexemes offset =
        lexemes ++ [⟨.ident haltWord, offset, offset + 15⟩] ++
          ⟨.punct '(', offset + 15, offset + 16⟩ :: (haltLexemes offset).drop 2 := by
      simp [haltLexemes]
    rw [whole, List.append_assoc _ _ data, List.cons_append,
      elementName_append isMark (by decide) nonempty,
      ← elementName_append isMark (by decide) nonempty _]
  exact declared_append state keyword (by omega) (fun _ => element)
    (functionName_append (by omega) data) (definedName_append (by omega) data)

theorem enter_halted (state : State) (keyword : Keyword) (data : List Lexeme) :
    state.enter keyword (lexemes ++ haltLexemes offset ++ data) =
      state.enter keyword (lexemes ++ haltLexemes offset) := by
  have length := length_halted lexemes offset
  exact enter_append state keyword (by omega) data

end State

namespace Visit

variable {state : State} {lexeme : Lexeme} {rest : List Lexeme} {offset : Nat}

theorem found_halted (data : List Lexeme) :
    found ⟨state, lexeme, rest ++ haltLexemes offset ++ data⟩ =
      found ⟨state, lexeme, rest ++ haltLexemes offset⟩ := by
  simp only [found, State.declared_halted]

theorem next?_halted (data : List Lexeme) :
    next? ⟨state, lexeme, rest ++ haltLexemes offset ++ data⟩ =
      next? ⟨state, lexeme, rest ++ haltLexemes offset⟩ := by
  simp only [next?, State.enter_halted]

end Visit

theorem visits_rest {state : State} {lexemes : List Lexeme} :
    ∀ visit ∈ visits state lexemes, visit.rest.length < lexemes.length := by
  induction lexemes generalizing state with
  | nil => simp [visits]
  | cons lexeme rest inductionHypothesis =>
      cases goesOn : Visit.next? ⟨state, lexeme, rest⟩ with
      | none => simp [visits_last goesOn]
      | some next =>
          rw [visits_cons goesOn, List.forall_mem_cons]
          refine ⟨Nat.lt_succ_self _, ?_⟩
          intro visit membership
          exact Nat.lt_succ_of_lt (inductionHypothesis visit membership)

/-- Data behind the end of the program does not change what the scan finds. -/
theorem scan_halted {state : State} {lexemes : List Lexeme} {offset : Nat} {last : Visit}
    (visited : last ∈ visits state (lexemes ++ haltLexemes offset))
    (isCall : last.rest = (haltLexemes offset).tail) (halts : last.keyword? = some .haltCompiler) :
    ∃ found, ∀ data, scan state (lexemes ++ haltLexemes offset ++ data) = .ok found := by
  induction lexemes generalizing state with
  | nil =>
      refine ⟨[], ?_⟩
      have first : last = ⟨state, ⟨.ident haltWord, offset, offset + 15⟩, (haltLexemes offset).tail⟩ := by
        rcases List.mem_cons.mp visited with isFirst | later
        · exact isFirst
        · -- Places further on have less behind them.
          exfalso
          split at later
          case h_1 next _ =>
              have bound := visits_rest last later
              simp [isCall, haltLexemes] at bound
          case h_2 => simp at later
      subst first
      have outside := Visit.items_of_keyword? halts
      have isKeyword := halts
      rw [Visit.keyword?_eq outside] at isKeyword
      intro data
      simp only at outside isKeyword
      simp only [List.nil_append, haltLexemes, List.cons_append]
      rw [scan, outside]
      simp only [isKeyword]
  | cons lexeme rest inductionHypothesis =>
      have notFirst : last ≠ ⟨state, lexeme, rest ++ haltLexemes offset⟩ := by
        rintro rfl
        have length := congrArg List.length isCall
        simp [haltLexemes] at length
      cases goesOn : Visit.next? ⟨state, lexeme, rest ++ haltLexemes offset⟩ with
      | none =>
          rw [List.cons_append, visits_last goesOn, List.mem_singleton] at visited
          exact absurd visited notFirst
      | some next =>
          rw [List.cons_append, visits_cons goesOn, List.mem_cons] at visited
          obtain ⟨found, scanned⟩ := inductionHypothesis (visited.resolve_left notFirst)
          refine ⟨Visit.found ⟨state, lexeme, rest ++ haltLexemes offset⟩ ++ found, ?_⟩
          intro data
          rw [List.cons_append, List.cons_append,
            scan_next ((Visit.next?_halted data).trans goesOn), Visit.found_halted, scanned]
          rfl

/-- A text behind which a call ends the program: the call stands in code, where a statement starts
outside all blocks. A script has its first line to itself. -/
structure EndsProgram (path : Path) (text : List Char) (lexemes : List Lexeme) : Prop where
  lexed : lexFile path (text ++ haltCall) = .ok (lexemes ++ haltLexemes (Text.width text))
  halts : ∃ last ∈ visits {} (lexemes ++ haltLexemes (Text.width text)),
    last.rest = (haltLexemes (Text.width text)).tail ∧ last.keyword? = some .haltCompiler
  wholeLine : ['#', '!'].isPrefixOf text → '\n' ∈ text

theorem EndsProgram.lexFile {path : Path} {text : List Char} {lexemes : List Lexeme}
    (ends : EndsProgram path text lexemes) (data : List Char) :
    FactScan.lexFile path (text ++ (haltCall ++ data)) =
      match lexFrom .code 0 data with
      | .ok found => .ok (lexemes ++ haltLexemes (Text.width text) ++
          found.map (moved (Text.width text + 18)))
      | .error e => .error (e.moved (Text.width text + 18)) := by
  have mode := Dialect.startsInCode_halted path ends.wholeLine data
  have lexed := ends.lexed
  unfold FactScan.lexFile at lexed ⊢
  rw [mode]
  generalize (if Dialect.startsInCode path (text ++ haltCall) then Mode.code else Mode.html) = start
    at lexed ⊢
  obtain ⟨last, reaches, behind⟩ := reaches_of_lexes (lexes_of_lexFrom lexed) rfl rfl
    (Nat.zero_add _).symm
  have inCode : last = .code := by
    cases last with
    | code => rfl
    | html => exact absurd behind.html_first.1 (by simp)
  subst inCode
  have alike : Alike haltCall (haltCall ++ data) := rfl
  have call := (reaches_haltCall (Text.width text) data).lexFrom
  have width : Text.width haltCall = 18 := rfl
  rw [lex, (reaches.alike alike).lexFrom, Nat.zero_add, call, width]
  have shifted := lexFrom_moved .code 0 (Text.width text + 18) data
  rw [Nat.zero_add] at shifted
  rw [shifted]
  cases lexFrom .code 0 data with
  | ok found => simp [movedAll, Except.map]
  | error e => rfl

def haltBytes : List UInt8 := haltCall.map fun c => c.toNat.toUInt8

theorem decode_halted (front data : List UInt8) :
    Text.decode (front ++ haltBytes ++ data) =
      Text.decode front ++ (haltCall ++ Text.decode data) := by
  have ascii : haltCall.all (·.toNat < 0x80) = true := by decide
  have call := Text.decode_asciiText haltCall (by simpa using ascii) data
  rw [← call, List.append_assoc]
  exact Text.decode_append_ascii (by decide) front _

/-- Behind the end of a program, data is ignored as long as it lexes as code. Otherwise the file is
rejected with the fault in the data. -/
theorem parse_halted {path : Path} {front : List UInt8} {lexemes : List Lexeme}
    (ends : EndsProgram path (Text.decode front) lexemes) :
    ∃ definitions, ∀ data : List UInt8,
      parse (front ++ haltBytes ++ data) path =
        match lexFrom .code 0 (Text.decode data) with
        | .ok _ => .ok definitions
        | .error e => .error ⟨path, .lexical e.fault
            (lineOf (Text.decode (front ++ haltBytes ++ data))
              (e.offset + (Text.width (Text.decode front) + 18)))⟩ := by
  obtain ⟨last, visited, isCall, halts⟩ := ends.halts
  obtain ⟨found, scanned⟩ := scan_halted visited isCall halts
  refine ⟨found.map (·.definedIn path), ?_⟩
  intro data
  unfold parse symbols
  rw [decode_halted, ends.lexFile]
  cases lexFrom .code 0 (Text.decode data) with
  | ok lexed => simp only [scanned]
  | error e => rfl

def onlyClass : List UInt8 :=
  [60, 63, 112, 104, 112, 32, 99, 108, 97, 115, 115, 32, 65, 123, 125]

def onlyClassLexemes : List Lexeme := [
  ⟨.openTag, 0, 5⟩, ⟨.ident ['c', 'l', 'a', 's', 's'], 6, 11⟩, ⟨.ident ['A'], 12, 13⟩,
  ⟨.punct '{', 13, 14⟩, ⟨.punct '}', 14, 15⟩]

theorem parse_braceAsData :
    EndsProgram ⟨"a.php"⟩ (Text.decode onlyClass) onlyClassLexemes ∧
      parse (onlyClass ++ haltBytes ++ [125, 255]) ⟨"a.php"⟩ =
        .ok [Symbol.definedIn ⟨.classLike, "A"⟩ ⟨"a.php"⟩] := by
  have ends : EndsProgram ⟨"a.php"⟩ (Text.decode onlyClass) onlyClassLexemes := by
    constructor
    case lexed => decide +kernel
    case halts => decide +kernel
    case wholeLine => decide +kernel
  refine ⟨ends, ?_⟩
  obtain ⟨definitions, parsed⟩ := parse_halted ends
  have alone : parse (onlyClass ++ haltBytes ++ []) ⟨"a.php"⟩ =
      .ok [Symbol.definedIn ⟨.classLike, "A"⟩ ⟨"a.php"⟩] := by decide +kernel
  have noData : lexFrom .code 0 (Text.decode []) = .ok [] := by decide +kernel
  have someData : lexFrom .code 0 (Text.decode [125, 255]) =
      .ok [⟨.punct '}', 0, 1⟩, ⟨.ident [Text.replacement], 1, 4⟩] := by decide +kernel
  rw [parsed, noData] at alone
  rw [parsed, someData]
  exact alone

/-- Data is read by the lexer: a single quote behind the end of the program fails. -/
theorem parse_quoteAsData :
    parse (onlyClass ++ haltBytes) ⟨"a.php"⟩ =
        .ok [Symbol.definedIn ⟨.classLike, "A"⟩ ⟨"a.php"⟩] ∧
      parse (onlyClass ++ haltBytes ++ [39]) ⟨"a.php"⟩ =
        .error ⟨⟨"a.php"⟩, .lexical .unterminatedString 1⟩ := by
  decide +kernel

end FactScan

end AutoloadIndex
