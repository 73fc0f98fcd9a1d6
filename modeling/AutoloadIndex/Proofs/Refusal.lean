import AutoloadIndex.Proofs.Clashes
import AutoloadIndex.Proofs.Populate

set_option autoImplicit false

/-!
Files that cannot be added. One that cannot be read or parsed changes nothing. One that is refused
stops at its first symbol that clashes with the registry from before, and what its earlier symbols
have stored stays.
-/

namespace AutoloadIndex

namespace Registry

variable {registry : Registry} {path : Path}

theorem inserted_store {symbol : Symbol} (clear : registry.clash? path symbol = none) :
    registry.Inserted ⟨path, [symbol]⟩ (registry.store symbol.kind symbol.name path) [] := by
  have inserted := registry.insert_eq path symbol
  rw [clear] at inserted
  rcases registry.insert_single path symbol with
    ⟨next, collision, stored, -, does⟩ | ⟨duplicate, refused, -, -⟩
  · cases inserted.symm.trans stored
    exact does
  · cases inserted.symm.trans refused

theorem insertAll_rest_of_error {symbol : Symbol} {middle next : Registry}
    {collision : Option Collision} {rest : List Symbol} {duplicate : Duplicate}
    (inserted : registry.insert symbol.kind symbol.name path = .ok (middle, collision))
    (refused : registry.insertAll path (symbol :: rest) = (next, .error duplicate)) :
    middle.insertAll path rest = (next, .error duplicate) := by
  rw [insertAll_cons_of_ok inserted] at refused
  generalize middle.insertAll path rest = outcome at refused ⊢
  rcases outcome with ⟨final, other | collisions⟩
  · cases refused
    rfl
  · cases refused

/-- Under the error policy a file is refused at its first symbol that clashes. The symbols in front
of it have been added. -/
theorem insertAll_stops {registry next : Registry} (policy : registry.policy = .error)
    {path : Path} {symbols : List Symbol} {duplicate : Duplicate}
    (refused : registry.insertAll path symbols = (next, .error duplicate)) :
    ∃ front symbol back clash, symbols = front ++ symbol :: back ∧
      registry.Inserted ⟨path, front⟩ next [] ∧ next.files = registry.files ∧
      registry.clash? path symbol = some clash ∧
      duplicate = ⟨symbol.kind, symbol.name, clash.previous, path⟩ := by
  induction symbols generalizing registry with
  | nil => cases refused
  | cons symbol rest inductionHypothesis =>
      have inserted := registry.insert_eq path symbol
      cases found : registry.clash? path symbol with
      | some clash =>
          rw [found, policy] at inserted
          rw [insertAll, inserted] at refused
          cases refused
          exact ⟨[], symbol, rest, clash, rfl, .nil _ path, rfl, found, rfl⟩
      | none =>
          rw [found] at inserted
          have later := insertAll_rest_of_error inserted refused
          obtain ⟨front, stop, back, clash, rfl, does, files, clashes, isDuplicate⟩ :=
            inductionHypothesis
              (show (registry.store symbol.kind symbol.name path).policy = .error from policy) later
          have clashed : registry.clash? path stop = some clash := by
            rw [clash?_store] at clashes
            split at clashes
            case isTrue => cases clashes
            case isFalse => exact clashes
          exact ⟨symbol :: front, stop, back, clash, rfl, (inserted_store found).append does, files,
            clashed, isDuplicate⟩

theorem insertAll_of_add_error {next : Registry} {symbols : List Symbol} {duplicate : Duplicate}
    (refused : registry.add path symbols = (next, .error duplicate)) :
    registry.insertAll path symbols = (next, .error duplicate) := by
  unfold add at refused
  rcases inserted : registry.insertAll path symbols with ⟨final, other | collisions⟩
  · rw [inserted] at refused
    cases refused
    rfl
  · rw [inserted] at refused
    cases refused

/-- How a file is refused at one of its symbols, and what is left of the ones in front of it. -/
structure RefusedAt (registry : Registry) (path : Path) (front : List Symbol) (symbol : Symbol)
    (next : Registry) (duplicate : Duplicate) : Prop where
  fits : ∀ other ∈ front, registry.Fits ⟨path, other⟩
  target : registry.target ⟨path, symbol⟩ = some duplicate.existing
  differs : ¬ duplicate.existing.Same path
  names : duplicate = ⟨symbol.kind, symbol.name, duplicate.existing, path⟩
  policy : next.policy = registry.policy
  files : next.files = registry.files
  kept : ∀ kind key existing, registry.stored kind key = some existing →
    ∃ path, next.stored kind key = some path ∧ path.Same existing
  new : ∀ kind key, registry.stored kind key = none →
    next.stored kind key = if (Addition.mk path front).Defines kind key then some path else none

theorem exists_refusedAt {next : Registry} {symbols : List Symbol} {duplicate : Duplicate}
    (refused : registry.add path symbols = (next, .error duplicate)) :
    registry.policy = .error ∧ ∃ front symbol back, symbols = front ++ symbol :: back ∧
      registry.RefusedAt path front symbol next duplicate := by
  have policy : registry.policy = .error := by
    rcases registry.add_cases ⟨path, symbols⟩ with
      ⟨final, collisions, added, -⟩ | ⟨-, -, -, policy, -⟩
    · cases added.symm.trans refused
    · exact policy
  obtain ⟨front, symbol, back, clash, split, inserted, files, found, isDuplicate⟩ :=
    insertAll_stops policy (insertAll_of_add_error refused)
  obtain ⟨-, target, differs⟩ := clash?_eq_some_iff.mp found
  have accepted := inserted.quiet.mp rfl
  subst isDuplicate
  refine ⟨policy, front, symbol, back, split, ?_, target, differs, rfl, inserted.policy, files,
    ?_, ?_⟩
  · intro other membership existing stored
    exact accepted _ _ existing ⟨other, membership, rfl, rfl⟩ stored
  · intro kind key existing before
    rw [inserted.stored_of_quiet]
    split
    case isTrue defines => exact ⟨path, rfl, (accepted kind key existing defines before).symm⟩
    case isFalse => exact ⟨existing, before, Path.Same.rfl⟩
  · intro kind key free
    rw [inserted.stored_of_quiet, free]

/-- A file that cannot be read or parsed leaves the registry as it was. A file that was parsed is
refused exactly if the policy is the error policy and one of its keys is stored for another place.
It is refused at the first such symbol, and the refusal names the symbol and both files. Then the
file is not counted, every entry from before is where it was, and the new keys are those of the
symbols in front. -/
theorem add_refusal (registry : Registry) (path : Path) (symbols : List Symbol) :
    (∀ (read : Reader) (parse : Parser),
      (∀ fault, read path = .error fault →
        registry.addFile read parse path = (registry, .error (.unreadable path fault))) ∧
      ∀ content fault, read path = .ok content → parse content path = .error fault →
        registry.addFile read parse path = (registry, .error (.unparsable fault))) ∧
    ((∃ next duplicate, registry.add path symbols = (next, .error duplicate)) ↔
      registry.policy = .error ∧ ∃ symbol ∈ symbols, ∃ existing,
        registry.target ⟨path, symbol⟩ = some existing ∧ ¬ existing.Same path) ∧
    ∀ next duplicate, registry.add path symbols = (next, .error duplicate) →
      ∃ front symbol back, symbols = front ++ symbol :: back ∧
        registry.RefusedAt path front symbol next duplicate := by
  refine ⟨?_, ⟨?_, ?_⟩, fun next duplicate refused => (exists_refusedAt refused).2⟩
  · intro read parse
    exact ⟨fun fault unreadable => addFile_unreadable unreadable registry parse,
      fun content fault readable unparsable => addFile_unparsable readable unparsable registry⟩
  · rintro ⟨next, duplicate, refused⟩
    obtain ⟨policy, front, symbol, back, rfl, stop⟩ := exists_refusedAt refused
    exact ⟨policy, symbol, by simp, duplicate.existing, stop.target, stop.differs⟩
  · rintro ⟨policy, symbol, membership, existing, target, differs⟩
    rcases registry.add_cases ⟨path, symbols⟩ with
      ⟨next, collisions, -, -, inserted⟩ | ⟨next, duplicate, refused, -, -⟩
    · have accepted := inserted.quiet.mp (inserted.strict policy)
      exact absurd (accepted _ _ existing ⟨symbol, membership, rfl, rfl⟩ target) differs
    · exact ⟨next, duplicate, refused⟩

def intruders : List Symbol :=
  [⟨.classLike, "A"⟩, ⟨.constant, "N"⟩, ⟨.function, "f"⟩, ⟨.typeAlias, "T"⟩]

theorem add_refusal_intruders :
    ∃ next, (stocked .error).add ⟨"src//a.php"⟩ intruders =
        (next, .error ⟨.function, "f", ⟨"b.php"⟩, ⟨"src//a.php"⟩⟩) ∧
      ∃ front symbol back, intruders = front ++ symbol :: back ∧
        (stocked .error).RefusedAt ⟨"src//a.php"⟩ front symbol next
          ⟨.function, "f", ⟨"b.php"⟩, ⟨"src//a.php"⟩⟩ := by
  have refused : (stocked .error).add ⟨"src//a.php"⟩ intruders =
      (((stocked .error).add ⟨"src//a.php"⟩ intruders).1,
        .error ⟨.function, "f", ⟨"b.php"⟩, ⟨"src//a.php"⟩⟩) :=
    Prod.ext rfl (by decide +kernel)
  exact ⟨_, refused, (add_refusal _ _ _).2.2 _ _ refused⟩

end Registry

end AutoloadIndex
