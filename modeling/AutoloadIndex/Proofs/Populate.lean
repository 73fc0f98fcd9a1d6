import AutoloadIndex.Scan.Basic

set_option autoImplicit false

/-!
Filling a registry from files. If the contents of the files do not change meanwhile, it makes no
difference whether files are parsed one by one as they are added or all of them before the first is
added: the result and the events are the same. A run that fails does so at the first file that
cannot be added and may not be left out.
-/

namespace AutoloadIndex

namespace Registry

variable {read : Reader} {path : Path}

theorem addFile_not_loaded {parse : Parser} {fault : AddFault}
    (failed : loadFile read parse path = .error fault) (registry : Registry) :
    registry.addFile read parse path = (registry, .error fault) := by
  rw [addFile, failed, addLoaded]

theorem addFile_loaded {parse : Parser} {definitions : List Definition}
    (loaded : loadFile read parse path = .ok definitions) (registry : Registry) :
    registry.addFile read parse path =
      ((registry.add path (definitions.map Definition.toSymbol)).1,
        (registry.add path (definitions.map Definition.toSymbol)).2.mapError .duplicate) := by
  rw [addFile, loaded, addLoaded]

theorem addFile_unreadable {fault : FileError} (unreadable : read path = .error fault)
    (registry : Registry) (parse : Parser) :
    registry.addFile read parse path = (registry, .error (.unreadable path fault)) :=
  addFile_not_loaded (by rw [loadFile, unreadable]) registry

theorem addFile_unparsable {content : List UInt8} (readable : read path = .ok content)
    {parse : Parser} {fault : ParseError} (unparsable : parse content path = .error fault)
    (registry : Registry) :
    registry.addFile read parse path = (registry, .error (.unparsable fault)) :=
  addFile_not_loaded (by simp [loadFile, readable, unparsable]) registry

theorem addFile_parsed {content : List UInt8} (readable : read path = .ok content)
    {parse : Parser} {definitions : List Definition} (parsed : parse content path = .ok definitions)
    (registry : Registry) :
    registry.addFile read parse path =
      ((registry.add path (definitions.map Definition.toSymbol)).1,
        (registry.add path (definitions.map Definition.toSymbol)).2.mapError .duplicate) :=
  addFile_loaded (by simp [loadFile, readable, parsed]) registry

end Registry

namespace Scan

/-- Contents that do not change may be parsed before the first file is added. -/
theorem addInTurn_still (read : Reader) (parse : Parser) (skipUnparsable : Bool)
    (registry : Registry) (files : List Path) :
    addInTurn (.still read) parse skipUnparsable registry files =
      addAllLoaded skipUnparsable registry
        (files.map fun path => (path, loadFile read parse path)) := by
  induction files generalizing registry with
  | nil => rfl
  | cons path rest inductionHypothesis =>
      rw [addInTurn, List.map_cons, addAllLoaded]
      congr 1
      funext events next
      rw [LiveReader.still_after]
      exact inductionHypothesis next

theorem populate_still (read : Reader) (parse : Parser) (options : Options) (registry : Registry)
    (files : List Path) :
    populate (.still read) parse options registry files =
      addAllLoaded options.skipUnparsable registry
        (files.map fun path => (path, loadFile read parse path)) := by
  unfold populate
  split
  · rfl
  · exact addInTurn_still read parse options.skipUnparsable registry files

/-- The files have the given contents whatever has happened. -/
def LiveReader.Shows (read : LiveReader) (content : Reader) (files : List Path) : Prop :=
  ∀ events, ∀ path ∈ files, read events path = content path

theorem loadFile_congr {read content : Reader} {path : Path} (equal : read path = content path)
    (parse : Parser) : loadFile read parse path = loadFile content parse path := by
  unfold loadFile
  rw [equal]

theorem addInTurn_of_shows {read : LiveReader} {content : Reader} {files : List Path}
    (shown : read.Shows content files) (parse : Parser) (skipUnparsable : Bool)
    (registry : Registry) :
    addInTurn read parse skipUnparsable registry files =
      addInTurn (.still content) parse skipUnparsable registry files := by
  induction files generalizing read registry with
  | nil => rfl
  | cons path rest inductionHypothesis =>
      rw [addInTurn, addInTurn, Registry.addFile, Registry.addFile,
        loadFile_congr (shown [] path (by simp))]
      congr 1
      funext events next
      apply inductionHypothesis
      intro later other membership
      exact shown (events ++ later) other (List.mem_cons_of_mem path membership)

theorem populate_of_shows {read : LiveReader} {content : Reader} {files : List Path}
    (shown : read.Shows content files) (parse : Parser) (options : Options)
    (registry : Registry) :
    populate read parse options registry files =
      populate (.still content) parse options registry files := by
  unfold populate
  split
  case isTrue =>
      congr 1
      apply List.map_congr_left
      intro path membership
      rw [loadFile_congr (shown [] path membership)]
      rfl
  case isFalse => exact addInTurn_of_shows shown parse options.skipUnparsable registry

def Options.fatal? (options : Options) : Except AddFault Added → Option AddFault
  | .ok _ => none
  | .error (.unparsable error) =>
    if options.skipUnparsable then none else some (.unparsable error)
  | .error fault => some fault

theorem Options.fatal?_unparsable (options : Options) (fault : ParseError) :
    options.fatal? (.error (.unparsable fault)) =
      if options.skipUnparsable then none else some (.unparsable fault) := rfl

def leftOut : Except AddFault Added → Nat
  | .ok _ => 0
  | .error _ => 1

def Filled.leaving (filled : Filled) (files : Nat) : Filled :=
  { filled with skipped := filled.skipped + files }

theorem afterAttempt_result (options : Options) (policy : CollisionPolicy)
    (attempt : Registry × Except AddFault Added) (next : Registry → Logged Filled) :
    (afterAttempt options.skipUnparsable policy attempt fun _ => next).result =
      match options.fatal? attempt.2 with
      | some fault => .error fault
      | none => (next attempt.1).result.map (·.leaving (leftOut attempt.2)) := by
  obtain ⟨registry, outcome⟩ := attempt
  cases outcome with
  | ok added =>
      change (next registry).result = (next registry).result.map id
      cases (next registry).result <;> rfl
  | error fault =>
      cases fault with
      | unparsable error =>
          rw [Options.fatal?_unparsable]
          cases skips : options.skipUnparsable <;>
            simp [afterAttempt, Filled.leaving, leftOut]
      | unreadable path error => rfl
      | duplicate found => rfl

theorem exists_split_cons {first : Path} {rest : List Path} {holds : List Path → Path → Prop} :
    (∃ front path back, first :: rest = front ++ path :: back ∧ holds front path) ↔
      holds [] first ∨
        ∃ front path back, rest = front ++ path :: back ∧ holds (first :: front) path := by
  constructor
  · rintro ⟨front, path, back, split, found⟩
    cases front with
    | nil =>
        obtain ⟨rfl, rfl⟩ := List.cons.inj split
        exact .inl found
    | cons head front =>
        obtain ⟨rfl, rfl⟩ := List.cons.inj split
        exact .inr ⟨front, path, back, rfl, found⟩
  · rintro (found | ⟨front, path, back, rfl, found⟩)
    · exact ⟨[], first, rest, rfl, found⟩
    · exact ⟨first :: front, path, back, rfl, found⟩

section Still

variable (read : Reader) (parse : Parser) (options : Options) (registry : Registry)

theorem populate_cons_result (path : Path) (rest : List Path) :
    (populate (.still read) parse options registry (path :: rest)).result =
      match options.fatal? (registry.addFile read parse path).2 with
      | some fault => .error fault
      | none =>
        (populate (.still read) parse options (registry.addFile read parse path).1 rest).result.map
          (·.leaving (leftOut (registry.addFile read parse path).2)) := by
  rw [populate_still, populate_still, List.map_cons, addAllLoaded]
  exact afterAttempt_result options registry.policy (registry.addFile read parse path)
    fun next => addAllLoaded options.skipUnparsable next _

/-- The files in front of a file can be added, and then the attempt to add it ends the run. -/
def FailsAt (front : List Path) (path : Path) (fault : AddFault) : Prop :=
  ∃ filled, (populate (.still read) parse options registry front).result = .ok filled ∧
    options.fatal? (filled.registry.addFile read parse path).2 = some fault

variable {read parse options registry}

theorem failsAt_nil {path : Path} {fault : AddFault} :
    FailsAt read parse options registry [] path fault ↔
      options.fatal? (registry.addFile read parse path).2 = some fault := by
  simp [FailsAt, populate_still, addAllLoaded]

theorem failsAt_cons {first : Path}
    (passes : options.fatal? (registry.addFile read parse first).2 = none)
    {front : List Path} {path : Path} {fault : AddFault} :
    FailsAt read parse options registry (first :: front) path fault ↔
      FailsAt read parse options (registry.addFile read parse first).1 front path fault := by
  unfold FailsAt
  rw [populate_cons_result, passes]
  generalize (populate (.still read) parse options _ front).result = result
  cases result with
  | error other => simp [Except.map]
  | ok filled => simp [Except.map, Filled.leaving]

theorem not_failsAt_cons {first : Path} {ended : AddFault}
    (fatal : options.fatal? (registry.addFile read parse first).2 = some ended)
    {front : List Path} {path : Path} {fault : AddFault} :
    ¬ FailsAt read parse options registry (first :: front) path fault := by
  rintro ⟨filled, result, -⟩
  rw [populate_cons_result, fatal] at result
  exact absurd result (by simp)

/-- A run fails exactly if there is a file at which it fails, and with the fault of that file. -/
theorem populate_eq_error_iff {files : List Path} {fault : AddFault} :
    (populate (.still read) parse options registry files).result = .error fault ↔
      ∃ front path back, files = front ++ path :: back ∧
        FailsAt read parse options registry front path fault := by
  induction files generalizing registry with
  | nil => simp [populate_still, addAllLoaded]
  | cons first rest inductionHypothesis =>
      rw [populate_cons_result, exists_split_cons, failsAt_nil]
      cases fatal : options.fatal? (registry.addFile read parse first).2 with
      | some ended => simp [not_failsAt_cons fatal]
      | none =>
          simp only [failsAt_cons fatal, ← inductionHypothesis, reduceCtorEq, false_or]
          generalize (populate (.still read) parse options _ rest).result = result
          cases result <;> simp [Except.map]

end Still

/-- If the files show the same contents throughout, parsing all of them first and parsing each when
its turn comes lead to the same result through the same events. A run in either mode fails with a
fault exactly if that is the fault of the first file that cannot be added. -/
theorem populate_modes_agree {read : LiveReader} {content : Reader} {files : List Path}
    (shown : read.Shows content files) (parse : Parser) (options : Options)
    (registry : Registry) :
    populate read parse { options with parallel := true } registry files =
      populate read parse { options with parallel := false } registry files ∧
    ∀ fault, (populate read parse options registry files).result = .error fault ↔
      ∃ front path back, files = front ++ path :: back ∧
        FailsAt content parse options registry front path fault := by
  simp only [populate_of_shows shown]
  constructor
  · rw [populate_still, populate_still]
  · intro fault
    exact populate_eq_error_iff

/-- Contents in which one file is missing. The log grows with every event. -/
def growingLog : LiveReader := fun events path =>
  if path = ⟨"scan.log"⟩ then .ok (List.replicate events.length 0)
  else if path = ⟨"gone.php"⟩ then .error .notFound
  else .ok []

def findsOne : Parser := fun _ path => .ok [⟨⟨.function, "f"⟩, path⟩]

theorem populate_growingLog :
    growingLog.Shows (growingLog []) [⟨"a.php"⟩, ⟨"gone.php"⟩, ⟨"b.php"⟩] ∧
    populate growingLog findsOne { parallel := true } {}
        [⟨"a.php"⟩, ⟨"gone.php"⟩, ⟨"b.php"⟩] =
      populate growingLog findsOne {} {} [⟨"a.php"⟩, ⟨"gone.php"⟩, ⟨"b.php"⟩] ∧
    (populate growingLog findsOne {} {} [⟨"a.php"⟩, ⟨"gone.php"⟩, ⟨"b.php"⟩]).result =
      .error (.unreadable ⟨"gone.php"⟩ .notFound) := by
  have shown : growingLog.Shows (growingLog []) [⟨"a.php"⟩, ⟨"gone.php"⟩, ⟨"b.php"⟩] := by
    intro events path membership
    have notLog : path ≠ ⟨"scan.log"⟩ := by
      rintro rfl
      exact absurd membership (by decide)
    simp [growingLog, notLog]
  have agree := populate_modes_agree shown findsOne {} {}
  exact ⟨shown, agree.1,
    (agree.2 _).mpr ⟨[⟨"a.php"⟩], ⟨"gone.php"⟩, [⟨"b.php"⟩], rfl, _, rfl, rfl⟩⟩

end Scan

end AutoloadIndex
