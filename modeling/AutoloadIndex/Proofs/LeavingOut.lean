import AutoloadIndex.Proofs.Additions
import AutoloadIndex.Proofs.Populate

set_option autoImplicit false

/-!
Leaving out files. A run that leaves out the files that cannot be parsed does the same as a run
over the other files that leaves out nothing: a file that is left out leaves no trace in the
registry, and it is counted.
-/

namespace AutoloadIndex

/-- Whether a file does not fail to parse. One that cannot be read does not come so far. -/
def isParsable (read : Reader) (parse : Parser) (path : Path) : Bool :=
  match loadFile read parse path with
  | .error (.unparsable _) => false
  | _ => true

namespace Registry

variable {read : Reader} {parse : Parser} {path : Path} (registry : Registry)

theorem addFile_of_not_isParsable (fails : isParsable read parse path = false) :
    ∃ fault, registry.addFile read parse path = (registry, .error (.unparsable fault)) := by
  unfold isParsable at fails
  split at fails
  case h_1 fault failed => exact ⟨fault, addFile_not_loaded failed registry⟩
  case h_2 => cases fails

theorem addFile_of_isParsable (parsable : isParsable read parse path = true)
    (fault : ParseError) : (registry.addFile read parse path).2 ≠ .error (.unparsable fault) := by
  cases loaded : loadFile read parse path with
  | error other =>
      rw [Registry.addFile_not_loaded loaded]
      rintro ⟨rfl⟩
      rw [isParsable, loaded] at parsable
      cases parsable
  | ok definitions =>
      rw [Registry.addFile_loaded loaded]
      cases (registry.add path (definitions.map Definition.toSymbol)).2 <;> rintro ⟨⟩

end Registry

namespace Scan

def Options.skipping (options : Options) (skip : Bool) : Options :=
  { options with skipUnparsable := skip }

section Step

variable {read : Reader} {parse : Parser} {path : Path} (options : Options)
  (registry : Registry)

theorem fatal?_skipping (outcome : Except AddFault Added) (fault : ParseError) :
    (options.skipping true).fatal? outcome ≠ some (.unparsable fault) := by
  rcases outcome with (_ | _ | _) | _ <;> rintro ⟨⟩

theorem fatal?_of_isParsable (parsable : isParsable read parse path = true) (skip other : Bool) :
    (options.skipping skip).fatal? (registry.addFile read parse path).2 =
      (options.skipping other).fatal? (registry.addFile read parse path).2 := by
  cases outcome : (registry.addFile read parse path).2 with
  | ok added => rfl
  | error fault =>
      cases fault with
      | unparsable error => exact absurd outcome (registry.addFile_of_isParsable parsable error)
      | unreadable path error => rfl
      | duplicate found => rfl

theorem addFile_counted
    (passes : options.fatal? (registry.addFile read parse path).2 = none) :
    (registry.addFile read parse path).1.files + leftOut (registry.addFile read parse path).2 =
      registry.files + 1 := by
  cases loaded : loadFile read parse path with
  | error fault =>
      rw [Registry.addFile_not_loaded loaded]
      rfl
  | ok definitions =>
      rw [Registry.addFile_loaded loaded] at passes ⊢
      rcases registry.add_cases ⟨path, definitions.map Definition.toSymbol⟩ with
        ⟨next, collisions, added, counted, -⟩ | ⟨next, duplicate, refused, -, -⟩
      · rw [added]
        exact counted
      · rw [refused] at passes
        cases passes

end Step

theorem map_registry_leaving (result : Except AddFault Filled) (files : Nat) :
    (result.map (·.leaving files)).map Filled.registry = result.map Filled.registry := by
  cases result <;> rfl

section Still

variable (read : Reader) (parse : Parser) (options : Options)

/-- Files that cannot be parsed may be left out during the run or in advance. -/
theorem populate_filter (registry : Registry) (files : List Path) :
    (populate (.still read) parse (options.skipping true) registry files).result.map
        Filled.registry =
      (populate (.still read) parse (options.skipping false) registry
        (files.filter (isParsable read parse))).result.map Filled.registry := by
  induction files generalizing registry with
  | nil => rw [List.filter_nil, populate_still, populate_still]; rfl
  | cons path rest inductionHypothesis =>
      rw [populate_cons_result]
      cases parsable : isParsable read parse path with
      | false =>
          obtain ⟨fault, left⟩ := registry.addFile_of_not_isParsable parsable
          rw [List.filter_cons_of_neg (by simp [parsable]), ← inductionHypothesis, left]
          exact map_registry_leaving _ _
      | true =>
          rw [List.filter_cons_of_pos parsable, populate_cons_result,
            fatal?_of_isParsable options registry parsable true false]
          cases (options.skipping false).fatal? (registry.addFile read parse path).2 with
          | some fault => rfl
          | none =>
              dsimp only
              rw [map_registry_leaving, map_registry_leaving]
              exact inductionHypothesis _

theorem populate_not_unparsable (registry : Registry) (files : List Path) (fault : ParseError) :
    (populate (.still read) parse (options.skipping true) registry files).result ≠
      .error (.unparsable fault) := by
  intro failed
  obtain ⟨_, _, _, -, _, -, fatal⟩ := populate_eq_error_iff.mp failed
  exact fatal?_skipping options _ fault fatal

theorem populate_counted (registry : Registry) {files : List Path} {filled : Filled}
    (result : (populate (.still read) parse options registry files).result = .ok filled) :
    filled.registry.files + filled.skipped = registry.files + files.length := by
  induction files generalizing registry filled with
  | nil =>
      rw [populate_still] at result
      cases result
      rfl
  | cons path rest inductionHypothesis =>
      rw [populate_cons_result] at result
      cases passes : options.fatal? (registry.addFile read parse path).2 with
      | some fault =>
          rw [passes] at result
          cases result
      | none =>
          rw [passes] at result
          have here := addFile_counted options registry passes
          cases rested : (populate (.still read) parse options
              (registry.addFile read parse path).1 rest).result with
          | error fault =>
              rw [rested] at result
              cases result
          | ok later =>
              have counted := inductionHypothesis _ rested
              rw [rested] at result
              cases result
              simp only [Filled.leaving, List.length_cons]
              omega

end Still

/-- A run that leaves out the files that cannot be parsed ends with the same registry, or with the
same fault, as a run over the other files that leaves out none. It never ends with a parse error,
and if it succeeds every file is counted as added or as left out. -/
theorem populate_leaving_out {read : LiveReader} {content : Reader} {files : List Path}
    (shown : read.Shows content files) (parse : Parser) (options : Options) :
    (populate read parse { options with skipUnparsable := true } { policy := options.collision }
        files).result.map Filled.registry =
      (populate read parse { options with skipUnparsable := false } { policy := options.collision }
        (files.filter (isParsable content parse))).result.map Filled.registry ∧
    (∀ fault, (populate read parse { options with skipUnparsable := true }
        { policy := options.collision } files).result ≠ .error (.unparsable fault)) ∧
    ∀ filled, (populate read parse { options with skipUnparsable := true }
        { policy := options.collision } files).result = .ok filled →
      filled.registry.files + filled.skipped = files.length := by
  have shownThen : read.Shows content (files.filter (isParsable content parse)) :=
    fun events path membership => shown events path (List.mem_filter.mp membership).1
  simp only [populate_of_shows shown, populate_of_shows shownThen]
  refine ⟨populate_filter content parse options _ files,
    populate_not_unparsable content parse options _ files, ?_⟩
  intro filled result
  exact (populate_counted content parse _ _ result).trans (Nat.zero_add _)

def findsUnlessBroken : Parser := fun _ path =>
  if path = ⟨"broken.php"⟩ then .error ⟨path, .malformed⟩ else .ok [⟨⟨.function, "f"⟩, path⟩]

theorem populate_leaving_out_broken :
    growingLog.Shows (growingLog []) [⟨"a.php"⟩, ⟨"broken.php"⟩, ⟨"b.php"⟩] ∧
    (populate growingLog findsUnlessBroken { skipUnparsable := true } {}
        [⟨"a.php"⟩, ⟨"broken.php"⟩, ⟨"b.php"⟩]).result.map Filled.registry =
      (populate growingLog findsUnlessBroken {} {} [⟨"a.php"⟩, ⟨"b.php"⟩]).result.map
        Filled.registry ∧
    ∃ filled, (populate growingLog findsUnlessBroken { skipUnparsable := true } {}
        [⟨"a.php"⟩, ⟨"broken.php"⟩, ⟨"b.php"⟩]).result = .ok filled ∧
      filled.registry.files + filled.skipped = 3 := by
  have shown : growingLog.Shows (growingLog []) [⟨"a.php"⟩, ⟨"broken.php"⟩, ⟨"b.php"⟩] := by
    intro events path membership
    have notLog : path ≠ ⟨"scan.log"⟩ := by
      rintro rfl
      exact absurd membership (by decide)
    simp [growingLog, notLog]
  obtain ⟨same, -, counted⟩ := populate_leaving_out shown findsUnlessBroken {}
  exact ⟨shown, same, _, rfl, counted _ rfl⟩

end Scan

end AutoloadIndex
