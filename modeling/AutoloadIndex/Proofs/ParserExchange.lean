import AutoloadIndex.Proofs.Additions
import AutoloadIndex.Proofs.IndexEquality
import AutoloadIndex.Proofs.Populate

set_option autoImplicit false

/-!
Parsers that can stand for each other. If two parsers find the same symbols in every file, in
whatever order and however often, or both fail on it, then filling a registry with one and with the
other ends in the same way: with the same entries, or with faults of one kind at one file.
-/

namespace AutoloadIndex

inductive FaultKind where
  | unreadable
  | unparsable
  | duplicate
deriving DecidableEq, Repr

def AddFault.kind : AddFault → FaultKind
  | unreadable _ _ => .unreadable
  | unparsable _ => .unparsable
  | duplicate _ => .duplicate

/-- Two answers of parsers to one file that can stand for each other. -/
def Exchangeable : (first second : Except ParseError (List Definition)) → Prop
  | .ok first, .ok second =>
    ∀ symbol, symbol ∈ first.map Definition.toSymbol ↔ symbol ∈ second.map Definition.toSymbol
  | .error _, .error _ => True
  | _, _ => False

theorem Addition.defines_congr {path : Path} {left right : List Symbol}
    (equal : ∀ symbol, symbol ∈ left ↔ symbol ∈ right) (kind : Kind) (key : String) :
    (Addition.mk path left).Defines kind key ↔ (Addition.mk path right).Defines kind key := by
  simp only [Defines, equal]

namespace Registry

/-- Registries with the same policy, the same number of files and the same entries. -/
structure Alike (first second : Registry) : Prop where
  policy : first.policy = second.policy
  files : first.files = second.files
  stored : ∀ kind key, first.stored kind key = second.stored kind key

namespace Alike

variable {first second : Registry} (alike : first.Alike second) (path : Path)
  {left right : List Symbol} (equal : ∀ symbol, symbol ∈ left ↔ symbol ∈ right)

include alike equal

theorem accepts_iff : first.Accepts ⟨path, left⟩ ↔ second.Accepts ⟨path, right⟩ := by
  simp only [Accepts, alike.stored, Addition.defines_congr equal]

theorem add :
    (∃ next added other more, first.add path left = (next, .ok added) ∧
      second.add path right = (other, .ok more) ∧ next.Alike other) ∨
    (∃ next duplicate other found, first.add path left = (next, .error duplicate) ∧
      second.add path right = (other, .error found)) := by
  have accepts := alike.accepts_iff path equal
  rcases first.add_cases ⟨path, left⟩ with
    ⟨next, collisions, added, counted, inserted⟩ | ⟨next, duplicate, added, policy, refused⟩ <;>
  rcases second.add_cases ⟨path, right⟩ with
    ⟨other, more, otherAdded, otherCounted, otherInserted⟩ |
      ⟨other, found, otherAdded, otherPolicy, otherRefused⟩
  · refine .inl ⟨_, _, _, _, added, otherAdded, ?_, ?_, ?_⟩
    · rw [inserted.policy, otherInserted.policy, alike.policy]
    · rw [counted, otherCounted, alike.files]
    · intro kind key
      rw [inserted.stored, otherInserted.stored, alike.policy, alike.stored]
      simp only [Addition.defines_congr equal]
  · have quiet := inserted.quiet.mp (inserted.strict (alike.policy.trans otherPolicy))
    exact absurd (accepts.mp quiet) otherRefused
  · have quiet := otherInserted.quiet.mp (otherInserted.strict (alike.policy.symm.trans policy))
    exact absurd (accepts.mpr quiet) refused
  · exact .inr ⟨_, _, _, _, added, otherAdded⟩

end Alike

end Registry

namespace Scan

def ExchangeableOn (read : Reader) (first second : Parser) (files : List Path) : Prop :=
  ∀ path ∈ files, ∀ content, read path = .ok content →
    Exchangeable (first content path) (second content path)

section Exchange

variable {read : Reader} {first second : Parser} (options : Options)

theorem addFile_exchange {left right : Registry} (alike : left.Alike right) {path : Path}
    (exchangeable : ∀ content, read path = .ok content →
      Exchangeable (first content path) (second content path)) :
    (options.fatal? (left.addFile read first path).2 = none ∧
      options.fatal? (right.addFile read second path).2 = none ∧
      leftOut (left.addFile read first path).2 = leftOut (right.addFile read second path).2 ∧
      (left.addFile read first path).1.Alike (right.addFile read second path).1) ∨
    (∃ fault other, options.fatal? (left.addFile read first path).2 = some fault ∧
      options.fatal? (right.addFile read second path).2 = some other ∧
      fault.kind = other.kind) := by
  cases contents : read path with
  | error unread =>
      rw [Registry.addFile_unreadable contents, Registry.addFile_unreadable contents]
      exact .inr ⟨_, _, rfl, rfl, rfl⟩
  | ok content =>
      have answers := exchangeable content contents
      cases firstAnswer : first content path <;> cases secondAnswer : second content path <;>
        simp only [firstAnswer, secondAnswer, Exchangeable] at answers
      case error.error fault other =>
          rw [Registry.addFile_unparsable contents firstAnswer,
            Registry.addFile_unparsable contents secondAnswer]
          simp only [Options.fatal?_unparsable]
          cases options.skipUnparsable with
          | false => exact .inr ⟨.unparsable fault, .unparsable other, rfl, rfl, rfl⟩
          | true => exact .inl ⟨rfl, rfl, rfl, alike⟩
      case ok.ok definitions others =>
          rw [Registry.addFile_parsed contents firstAnswer,
            Registry.addFile_parsed contents secondAnswer]
          rcases alike.add path answers with
            ⟨next, added, other, more, isAdded, isMore, stillAlike⟩ |
              ⟨next, duplicate, other, found, isDuplicate, isFound⟩
          · rw [isAdded, isMore]
            exact .inl ⟨rfl, rfl, rfl, stillAlike⟩
          · rw [isDuplicate, isFound]
            exact .inr ⟨.duplicate duplicate, .duplicate found, rfl, rfl, rfl⟩

/-- Runs with two parsers end alike, or fail at one file. -/
theorem populate_alike {files : List Path}
    (exchangeable : ExchangeableOn read first second files) {left right : Registry}
    (alike : left.Alike right) :
    (∃ filled other, (populate (.still read) first options left files).result = .ok filled ∧
      (populate (.still read) second options right files).result = .ok other ∧
      filled.registry.Alike other.registry ∧ filled.skipped = other.skipped) ∨
    (∃ front path back fault other, files = front ++ path :: back ∧
      FailsAt read first options left front path fault ∧
      FailsAt read second options right front path other ∧ fault.kind = other.kind) := by
  induction files generalizing left right with
  | nil =>
      rw [populate_still, populate_still]
      exact .inl ⟨⟨left, 0⟩, ⟨right, 0⟩, rfl, rfl, alike, rfl⟩
  | cons path rest inductionHypothesis =>
      have later : ExchangeableOn read first second rest := fun other membership =>
        exchangeable other (List.mem_cons_of_mem path membership)
      rcases addFile_exchange options alike (exchangeable path (by simp)) with
        ⟨passes, otherPasses, leaves, stillAlike⟩ | ⟨fault, other, fatal, otherFatal, kinds⟩
      · rcases inductionHypothesis later stillAlike with
          ⟨filled, other, result, otherResult, ends, skipped⟩ |
            ⟨front, failing, back, fault, other, rfl, fails, otherFails, kinds⟩
        · refine .inl ⟨filled.leaving (leftOut (left.addFile read first path).2),
            other.leaving (leftOut (right.addFile read second path).2), ?_, ?_, ends, ?_⟩
          · rw [populate_cons_result, passes, result]
            rfl
          · rw [populate_cons_result, otherPasses, otherResult]
            rfl
          · simp only [Filled.leaving, skipped, leaves]
        · exact .inr ⟨path :: front, failing, back, fault, other, rfl,
            (failsAt_cons passes).mpr fails, (failsAt_cons otherPasses).mpr otherFails, kinds⟩
      · exact .inr ⟨[], path, rest, fault, other, rfl, failsAt_nil.mpr fatal,
          failsAt_nil.mpr otherFatal, kinds⟩

end Exchange

/-- If two parsers find the same symbols in every file or both fail on it, then filling an empty
registry with the one and with the other gives the same entries, the same number of files and the
same number of files left out, so that a comparison finds nothing; or both runs fail at the same
file with faults of one kind. -/
theorem populate_exchange {read : Reader} {first second : Parser} {files : List Path}
    (exchangeable : ExchangeableOn read first second files) (options : Options) :
    (∃ filled other,
      (populate (.still read) first options { policy := options.collision } files).result =
        .ok filled ∧
      (populate (.still read) second options { policy := options.collision } files).result =
        .ok other ∧
      (∀ kind, (filled.registry.index.entries kind).toList =
        (other.registry.index.entries kind).toList) ∧
      filled.registry.files = other.registry.files ∧ filled.skipped = other.skipped ∧
      ∀ exclude, Comparison.compare exclude filled.registry.index other.registry.index =
        Kind.all.map fun kind => ⟨kind, [], [], []⟩) ∨
    (∃ front path back fault other, files = front ++ path :: back ∧
      FailsAt read first options { policy := options.collision } front path fault ∧
      FailsAt read second options { policy := options.collision } front path other ∧
      (populate (.still read) first options { policy := options.collision } files).result =
        .error fault ∧
      (populate (.still read) second options { policy := options.collision } files).result =
        .error other ∧
      fault.kind = other.kind) := by
  have alike : Registry.Alike { policy := options.collision } { policy := options.collision } :=
    ⟨rfl, rfl, fun _ _ => rfl⟩
  rcases populate_alike options exchangeable alike with
    ⟨filled, other, result, otherResult, ends, skipped⟩ |
      ⟨front, path, back, fault, other, split, fails, otherFails, kinds⟩
  · exact .inl ⟨filled, other, result, otherResult,
      fun kind => Index.toList_eq_of_getElem? (ends.stored kind), ends.files, skipped,
      Comparison.compare_eq_empty ends.stored⟩
  · exact .inr ⟨front, path, back, fault, other, split, fails, otherFails,
      populate_eq_error_iff.mpr ⟨front, path, back, split, fails⟩,
      populate_eq_error_iff.mpr ⟨front, path, back, split, otherFails⟩, kinds⟩

def findsTwo : Parser := fun _ path =>
  if path = ⟨"broken.php"⟩ then .error ⟨path, .malformed⟩
  else .ok [⟨⟨.function, "f"⟩, path⟩, ⟨⟨.function, "g"⟩, path⟩]

def findsTwoAgain : Parser := fun _ path =>
  if path = ⟨"broken.php"⟩ then .error ⟨path, .openBrace 1⟩
  else .ok [⟨⟨.function, "g"⟩, path⟩, ⟨⟨.function, "f"⟩, path⟩, ⟨⟨.function, "g"⟩, path⟩]

theorem exchangeableOn_findsTwo (read : Reader) (files : List Path) :
    ExchangeableOn read findsTwo findsTwoAgain files := by
  intro path _ content _
  unfold findsTwo findsTwoAgain
  split
  · trivial
  · intro symbol
    simp only [List.map_cons, List.map_nil, List.mem_cons, List.not_mem_nil, or_false]
    grind

theorem populate_findsTwo :
    ExchangeableOn (fun _ => .ok []) findsTwo findsTwoAgain
      [⟨"a.php"⟩, ⟨"broken.php"⟩, ⟨"b.php"⟩] ∧
    ∃ filled other,
      (populate (.still fun _ => .ok []) findsTwo { skipUnparsable := true } {}
        [⟨"a.php"⟩, ⟨"broken.php"⟩, ⟨"b.php"⟩]).result = .ok filled ∧
      (populate (.still fun _ => .ok []) findsTwoAgain { skipUnparsable := true } {}
        [⟨"a.php"⟩, ⟨"broken.php"⟩, ⟨"b.php"⟩]).result = .ok other ∧
      (filled.registry.index.entries .function).toList =
        (other.registry.index.entries .function).toList ∧
      filled.skipped = other.skipped := by
  have exchangeable := exchangeableOn_findsTwo (fun _ => .ok [])
    [⟨"a.php"⟩, ⟨"broken.php"⟩, ⟨"b.php"⟩]
  refine ⟨exchangeable, ?_⟩
  rcases populate_exchange exchangeable { skipUnparsable := true } with
    ⟨filled, other, result, otherResult, entries, -, skipped, -⟩ |
      ⟨_, _, _, fault, _, _, _, _, result, _, _⟩
  · exact ⟨filled, other, result, otherResult, entries .function, skipped⟩
  · have succeeds : (populate (.still fun _ => .ok []) findsTwo { skipUnparsable := true } {}
        [⟨"a.php"⟩, ⟨"broken.php"⟩, ⟨"b.php"⟩]).result.isOk = true := by
      decide +kernel
    rw [result] at succeeds
    exact absurd succeeds (by simp [Except.isOk, Except.toBool])

end Scan

end AutoloadIndex
