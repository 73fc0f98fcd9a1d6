import AutoloadIndex.Proofs.RegistryRun

set_option autoImplicit false

/-!
Runs that add whole files, one after the other. Adding a file is described once, for every policy:
which file stays under each key, when a collision is reported, and when the file is refused. The
entry that a run leaves under a key then depends only on the files that define the key, in the order
of the run: the last of them stays under last-wins and the first under first-wins, and under the
error policy they all have to be one.
-/

namespace AutoloadIndex

namespace CollisionPolicy

/-- The file that stays when a key with an entry is written for a file. A file of the same place
brings its own spelling under every policy. -/
def settle (policy : CollisionPolicy) (existing : Option Path) (path : Path) : Path :=
  match policy, existing with
  | .firstWins, some existing => if existing.Same path then path else existing
  | _, _ => path

@[simp] theorem settle_none (policy : CollisionPolicy) (path : Path) :
    policy.settle none path = path := by
  cases policy <;> rfl

theorem settle_of_ne_firstWins {policy : CollisionPolicy} (other : policy ≠ .firstWins)
    (existing : Option Path) (path : Path) : policy.settle existing path = path := by
  cases policy with
  | firstWins => exact absurd rfl other
  | lastWins => rfl
  | error => rfl

theorem settle_of_same (policy : CollisionPolicy) {existing path : Path}
    (same : existing.Same path) : policy.settle (some existing) path = path := by
  cases policy with
  | firstWins => exact if_pos same
  | lastWins => rfl
  | error => rfl

theorem settle_firstWins_of_not_same {existing path : Path} (differ : ¬ existing.Same path) :
    firstWins.settle (some existing) path = existing :=
  if_neg differ

theorem settle_firstWins_same (existing path : Path) :
    (firstWins.settle (some existing) path).Same existing := by
  by_cases same : existing.Same path
  · rw [settle_of_same _ same]
    exact same.symm
  · rw [settle_firstWins_of_not_same same]
    exact Path.Same.rfl

theorem settle_settle (policy : CollisionPolicy) (existing : Option Path) (path : Path) :
    policy.settle (some (policy.settle existing path)) path = policy.settle existing path := by
  cases policy with
  | lastWins => rfl
  | error => rfl
  | firstWins =>
      cases existing with
      | none => exact settle_of_same _ Path.Same.rfl
      | some existing =>
          by_cases same : existing.Same path
          · rw [settle_of_same _ same, settle_of_same _ Path.Same.rfl]
          · rw [settle_firstWins_of_not_same same, settle_firstWins_of_not_same same]

def settleAll (policy : CollisionPolicy) (existing : Option Path) (paths : List Path) :
    Option Path :=
  paths.foldl (fun existing path => some (policy.settle existing path)) existing

theorem settleAll_cons (policy : CollisionPolicy) (existing : Option Path) (path : Path)
    (rest : List Path) :
    policy.settleAll existing (path :: rest) =
      policy.settleAll (some (policy.settle existing path)) rest := rfl

theorem settleAll_of_ne_firstWins {policy : CollisionPolicy} (other : policy ≠ .firstWins)
    (existing : Option Path) (paths : List Path) :
    policy.settleAll existing paths = paths.getLast?.or existing := by
  induction paths generalizing existing with
  | nil => rfl
  | cons path rest inductionHypothesis =>
      rw [settleAll_cons, settle_of_ne_firstWins other, inductionHypothesis, List.getLast?_cons]
      cases rest.getLast? <;> rfl

theorem settleAll_firstWins (existing : Option Path) (paths : List Path) :
    (firstWins.settleAll existing paths).map Path.components =
      (existing.or paths.head?).map Path.components := by
  induction paths generalizing existing with
  | nil => cases existing <;> rfl
  | cons path rest inductionHypothesis =>
      rw [settleAll_cons, inductionHypothesis]
      cases existing with
      | none => rw [settle_none]; rfl
      | some existing => exact congrArg some (settle_firstWins_same existing path)

end CollisionPolicy

structure Addition where
  path : Path
  symbols : List Symbol
deriving DecidableEq, Repr

namespace Addition

def Defines (kind : Kind) (key : String) (addition : Addition) : Prop :=
  ∃ symbol ∈ addition.symbols, symbol.kind = kind ∧ Name.key symbol.kind symbol.name = key

instance (kind : Kind) (key : String) (addition : Addition) :
    Decidable (addition.Defines kind key) :=
  inferInstanceAs (Decidable (∃ symbol ∈ addition.symbols, _))

theorem defines_single (path : Path) (symbol : Symbol) (kind : Kind) (key : String) :
    (Addition.mk path [symbol]).Defines kind key ↔ (Write.mk path symbol).Hits kind key := by
  simp [Defines, Write.Hits]

theorem defines_append (path : Path) (front back : List Symbol) (kind : Kind) (key : String) :
    (Addition.mk path (front ++ back)).Defines kind key ↔
      (Addition.mk path front).Defines kind key ∨ (Addition.mk path back).Defines kind key := by
  simp [Defines, or_and_right, exists_or]

def definers (kind : Kind) (key : String) (additions : List Addition) : List Path :=
  (additions.filter fun addition => addition.Defines kind key).map Addition.path

theorem definers_cons (kind : Kind) (key : String) (addition : Addition) (rest : List Addition) :
    definers kind key (addition :: rest) =
      if addition.Defines kind key then addition.path :: definers kind key rest
      else definers kind key rest := by
  by_cases defines : addition.Defines kind key <;> simp [definers, defines]

theorem mem_definers {kind : Kind} {key : String} {additions : List Addition} {path : Path} :
    path ∈ definers kind key additions ↔
      ∃ addition ∈ additions, addition.Defines kind key ∧ addition.path = path := by
  simp [definers, and_assoc]

/-- Whether the two files are one, should they define a key in common. -/
def Agree (first second : Addition) : Prop :=
  ∀ kind key, first.Defines kind key → second.Defines kind key → first.path.Same second.path

theorem Agree.symm {first second : Addition} (agree : first.Agree second) :
    second.Agree first := by
  intro kind key isSecond isFirst
  exact (agree kind key isFirst isSecond).symm

theorem Agree.of_same {first second : Addition} (same : first.path.Same second.path) :
    first.Agree second :=
  fun _ _ _ _ => same

/-- No key is defined by files of different places. -/
def Compatible (additions : List Addition) : Prop :=
  ∀ first ∈ additions, ∀ second ∈ additions, first.Agree second

theorem compatible_cons {addition : Addition} {rest : List Addition} :
    Compatible (addition :: rest) ↔ (∀ other ∈ rest, addition.Agree other) ∧ Compatible rest := by
  simp only [Compatible, List.forall_mem_cons]
  constructor
  · rintro ⟨⟨-, front⟩, each⟩
    exact ⟨front, fun other membership => (each other membership).2⟩
  · rintro ⟨front, compatible⟩
    refine ⟨⟨.of_same Path.Same.rfl, front⟩, ?_⟩
    intro other membership
    exact ⟨(front other membership).symm, compatible other membership⟩

end Addition

namespace Registry

def Accepts (registry : Registry) (addition : Addition) : Prop :=
  ∀ kind key existing, addition.Defines kind key → registry.stored kind key = some existing →
    existing.Same addition.path

theorem accepts_single (registry : Registry) (path : Path) (symbol : Symbol) :
    registry.Accepts ⟨path, [symbol]⟩ ↔ registry.Fits ⟨path, symbol⟩ := by
  simp only [Accepts, Addition.defines_single]
  constructor
  · intro accepts existing stored
    exact accepts _ _ existing ⟨rfl, rfl⟩ stored
  · intro fits kind key existing hits stored
    exact fits existing ((target_of_hits hits).trans stored)

theorem accepts_append (registry : Registry) (path : Path) (front back : List Symbol) :
    registry.Accepts ⟨path, front ++ back⟩ ↔
      registry.Accepts ⟨path, front⟩ ∧ registry.Accepts ⟨path, back⟩ := by
  simp only [Accepts, Addition.defines_append]
  constructor
  · intro accepts
    exact ⟨fun kind key existing defines => accepts kind key existing (.inl defines),
      fun kind key existing defines => accepts kind key existing (.inr defines)⟩
  · rintro ⟨first, second⟩ kind key existing (defines | defines)
    · exact first kind key existing defines
    · exact second kind key existing defines

theorem Accepts.settle_eq {registry : Registry} {addition : Addition}
    (accepts : registry.Accepts addition) {kind : Kind} {key : String}
    (defines : addition.Defines kind key) :
    registry.policy.settle (registry.stored kind key) addition.path = addition.path := by
  cases before : registry.stored kind key with
  | none => exact CollisionPolicy.settle_none _ addition.path
  | some existing =>
      exact CollisionPolicy.settle_of_same _ (accepts kind key existing defines before)

/-- What adding a file did to a registry. Each key of the file is settled by the policy and no other
key is touched. There is no collision exactly if the file was accepted, and under the error policy
there never is one. -/
structure Inserted (registry : Registry) (addition : Addition) (next : Registry)
    (collisions : List Collision) : Prop where
  policy : next.policy = registry.policy
  stored : ∀ kind key, next.stored kind key =
    if addition.Defines kind key then
      some (registry.policy.settle (registry.stored kind key) addition.path)
    else registry.stored kind key
  quiet : collisions = [] ↔ registry.Accepts addition
  strict : registry.policy = .error → collisions = []

namespace Inserted

theorem nil (registry : Registry) (path : Path) : registry.Inserted ⟨path, []⟩ registry [] where
  policy := rfl
  stored := by simp [Addition.Defines]
  quiet := by simp [Accepts, Addition.Defines]
  strict := fun _ => rfl

theorem stored_of_quiet {registry next : Registry} {addition : Addition}
    (inserted : registry.Inserted addition next []) (kind : Kind) (key : String) :
    next.stored kind key =
      if addition.Defines kind key then some addition.path else registry.stored kind key := by
  rw [inserted.stored]
  refine ite_congr rfl ?_ fun _ => rfl
  intro defines
  rw [(inserted.quiet.mp rfl).settle_eq defines]

/-- After a file that was accepted, another one is accepted exactly if it was before and agrees
with the first. -/
theorem accepts_iff {registry next : Registry} {addition : Addition}
    (inserted : registry.Inserted addition next []) (other : Addition) :
    next.Accepts other ↔ registry.Accepts other ∧ addition.Agree other := by
  constructor
  · intro accepts
    have agree : addition.Agree other := by
      intro kind key own defines
      exact accepts kind key addition.path defines
        (by rw [inserted.stored_of_quiet, if_pos own])
    refine ⟨?_, agree⟩
    intro kind key existing defines before
    by_cases own : addition.Defines kind key
    · exact (inserted.quiet.mp rfl kind key existing own before).trans (agree kind key own defines)
    · exact accepts kind key existing defines (by rw [inserted.stored_of_quiet, if_neg own, before])
  · rintro ⟨accepts, agree⟩ kind key existing defines after
    rw [inserted.stored_of_quiet] at after
    split at after
    case isTrue own =>
        cases after
        exact agree kind key own defines
    case isFalse => exact accepts kind key existing defines after

theorem append {registry middle final : Registry} {path : Path} {front back : List Symbol}
    {earlier later : List Collision} (first : registry.Inserted ⟨path, front⟩ middle earlier)
    (second : middle.Inserted ⟨path, back⟩ final later) :
    registry.Inserted ⟨path, front ++ back⟩ final (earlier ++ later) where
  policy := second.policy.trans first.policy
  stored := by
    intro kind key
    rw [second.stored, first.stored, first.policy]
    by_cases inFront : (Addition.mk path front).Defines kind key <;>
      by_cases inBack : (Addition.mk path back).Defines kind key <;>
      simp [Addition.defines_append, inFront, inBack, CollisionPolicy.settle_settle]
  quiet := by
    rw [List.append_eq_nil_iff, second.quiet, first.quiet, accepts_append]
    refine and_congr_right ?_
    intro accepted
    have silent := first.quiet.mpr accepted
    subst silent
    rw [first.accepts_iff]
    exact and_iff_left (.of_same Path.Same.rfl)
  strict := by
    intro policy
    rw [first.strict policy, second.strict (first.policy.trans policy)]
    rfl

end Inserted

theorem stored_store_settled {registry : Registry} {path : Path} {symbol : Symbol}
    (settles : ∀ kind key, (Write.mk path symbol).Hits kind key →
      registry.policy.settle (registry.stored kind key) path = path)
    (kind : Kind) (key : String) :
    (registry.store symbol.kind symbol.name path).stored kind key =
      if (Addition.mk path [symbol]).Defines kind key then
        some (registry.policy.settle (registry.stored kind key) path)
      else registry.stored kind key := by
  have stored := registry.stored_store ⟨path, symbol⟩ kind key
  dsimp only at stored
  simp only [stored, Addition.defines_single]
  refine ite_congr rfl ?_ fun _ => rfl
  intro hits
  rw [settles kind key hits]

theorem insert_single (registry : Registry) (path : Path) (symbol : Symbol) :
    (∃ next collision, registry.insert symbol.kind symbol.name path = .ok (next, collision) ∧
      next.files = registry.files ∧
      registry.Inserted ⟨path, [symbol]⟩ next collision.toList) ∨
    (∃ duplicate, registry.insert symbol.kind symbol.name path = .error duplicate ∧
      registry.policy = .error ∧ ¬ registry.Accepts ⟨path, [symbol]⟩) := by
  have fits := registry.conflict?_eq_none_iff ⟨path, symbol⟩
  have conflicts := registry.conflict?_eq_some_iff ⟨path, symbol⟩
  rw [← accepts_single] at fits
  unfold insert
  cases conflict : registry.conflict? symbol.kind symbol.name path with
  | none =>
      have accepted := fits.mp conflict
      refine .inl ⟨_, none, rfl, rfl, rfl, ?_, by simpa using accepted, fun _ => rfl⟩
      apply stored_store_settled
      intro kind key hits
      exact accepted.settle_eq ((Addition.defines_single path symbol kind key).mpr hits)
  | some previous =>
      obtain ⟨target, differ⟩ := (conflicts previous).mp conflict
      have refused : ¬ registry.Accepts ⟨path, [symbol]⟩ := by
        intro accepted
        exact absurd (conflict.symm.trans (fits.mpr accepted)) (by simp)
      cases policy : registry.policy with
      | lastWins =>
          refine .inl ⟨_, some _, rfl, rfl, rfl, ?_, by simpa using refused, ?_⟩
          · apply stored_store_settled
            intro kind key _
            exact CollisionPolicy.settle_of_ne_firstWins (by simp [policy]) _ path
          · exact fun other => absurd (policy.symm.trans other) (by simp)
      | firstWins =>
          refine .inl ⟨_, some _, rfl, rfl, rfl, ?_, by simpa using refused, ?_⟩
          · intro kind key
            simp only [Addition.defines_single]
            split
            case isTrue hits =>
                rw [← target_of_hits hits, target, policy,
                  CollisionPolicy.settle_firstWins_of_not_same differ]
            case isFalse => rfl
          · exact fun other => absurd (policy.symm.trans other) (by simp)
      | error => exact .inr ⟨_, rfl, rfl, refused⟩

/-- Adding a file does what its symbols ask for, unless the policy forbids a collision. -/
theorem insertAll_cases (registry : Registry) (path : Path) (symbols : List Symbol) :
    (∃ next collisions, registry.insertAll path symbols = (next, .ok collisions) ∧
      next.files = registry.files ∧ registry.Inserted ⟨path, symbols⟩ next collisions) ∨
    (∃ next duplicate, registry.insertAll path symbols = (next, .error duplicate) ∧
      registry.policy = .error ∧ ¬ registry.Accepts ⟨path, symbols⟩) := by
  induction symbols generalizing registry with
  | nil => exact .inl ⟨registry, [], rfl, rfl, .nil registry path⟩
  | cons symbol rest inductionHypothesis =>
      have split := registry.accepts_append path [symbol] rest
      rw [List.singleton_append] at split
      rw [insertAll]
      rcases registry.insert_single path symbol with
        ⟨middle, collision, stored, files, first⟩ | ⟨duplicate, failed, policy, refused⟩
      · rw [stored]
        rcases inductionHypothesis middle with
          ⟨next, collisions, added, more, second⟩ | ⟨next, duplicate, added, policy, refused⟩
        · exact .inl ⟨next, collision.toList ++ collisions, by simp [added, Except.map],
            more.trans files, first.append second⟩
        · have strict : registry.policy = .error := first.policy.symm.trans policy
          refine .inr ⟨next, duplicate, by simp [added, Except.map], strict, ?_⟩
          intro accepts
          -- Under the error policy the first symbol left no collision, so it did not stand in the
          -- way of the others.
          have silent := first.strict strict
          rw [silent] at first
          exact refused ((first.accepts_iff _).mpr
            ⟨(split.mp accepts).2, .of_same Path.Same.rfl⟩)
      · rw [failed]
        exact .inr ⟨registry, duplicate, rfl, policy, fun accepts => refused (split.mp accepts).1⟩

theorem add_cases (registry : Registry) (addition : Addition) :
    (∃ next collisions, registry.add addition.path addition.symbols =
        (next, .ok ⟨addition.symbols.length, collisions⟩) ∧
      next.files = registry.files + 1 ∧ registry.Inserted addition next collisions) ∨
    (∃ next duplicate, registry.add addition.path addition.symbols = (next, .error duplicate) ∧
      registry.policy = .error ∧ ¬ registry.Accepts addition) := by
  unfold add
  rcases registry.insertAll_cases addition.path addition.symbols with
    ⟨next, collisions, added, files, inserted⟩ | ⟨next, duplicate, added, policy, refused⟩
  · rw [added]
    refine .inl ⟨next.withFiles (next.files + 1), collisions, rfl, ?_, ?_⟩
    · exact congrArg (· + 1) files
    · exact ⟨inserted.policy, inserted.stored, inserted.quiet, inserted.strict⟩
  · rw [added]
    exact .inr ⟨next, duplicate, rfl, policy, refused⟩

/-- Adds files in order. A file that is refused does not keep the later ones from being added. -/
def addEach (registry : Registry) : List Addition → Registry × List (Except Duplicate Added)
  | [] => (registry, [])
  | addition :: rest =>
    let (next, outcome) := registry.add addition.path addition.symbols
    let (final, outcomes) := next.addEach rest
    (final, outcome :: outcomes)

def Succeeds (registry : Registry) (additions : List Addition) : Prop :=
  ∀ outcome ∈ (registry.addEach additions).2, ∃ added, outcome = .ok added

instance (registry : Registry) (additions : List Addition) :
    Decidable (registry.Succeeds additions) :=
  decidable_of_iff (∀ outcome ∈ (registry.addEach additions).2, outcome.isOk = true)
    (forall₂_congr fun outcome _ => by cases outcome <;> simp [Except.isOk, Except.toBool])

def reportedBy : Except Duplicate Added → List Collision
  | .ok added => added.collisions
  | .error _ => []

def reported (registry : Registry) (additions : List Addition) : List Collision :=
  (registry.addEach additions).2.flatMap reportedBy

section Step

variable {registry next : Registry} {addition : Addition} {outcome : Except Duplicate Added}
  (added : registry.add addition.path addition.symbols = (next, outcome)) (rest : List Addition)

include added

theorem addEach_cons :
    registry.addEach (addition :: rest) =
      ((next.addEach rest).1, outcome :: (next.addEach rest).2) := by
  rw [addEach, added]

theorem succeeds_cons :
    registry.Succeeds (addition :: rest) ↔
      (∃ added, outcome = .ok added) ∧ next.Succeeds rest := by
  unfold Succeeds
  rw [addEach_cons added, List.forall_mem_cons]

theorem reported_cons :
    registry.reported (addition :: rest) = reportedBy outcome ++ next.reported rest := by
  unfold reported
  rw [addEach_cons added, List.flatMap_cons]

end Step

/-- Whether the files can be added without meeting an entry of another place, be it one from before
or one from another of the files. -/
def AcceptsAll (registry : Registry) (additions : List Addition) : Prop :=
  (∀ addition ∈ additions, registry.Accepts addition) ∧ Addition.Compatible additions

theorem acceptsAll_empty (policy : CollisionPolicy) (additions : List Addition) :
    AcceptsAll { policy } additions ↔ Addition.Compatible additions := by
  refine and_iff_right ?_
  intro addition _ kind key existing _ stored
  rw [stored_empty] at stored
  exact absurd stored (by simp)

theorem Inserted.acceptsAll_iff {registry next : Registry} {addition : Addition}
    (inserted : registry.Inserted addition next []) (rest : List Addition) :
    next.AcceptsAll rest ↔ registry.AcceptsAll (addition :: rest) := by
  simp only [AcceptsAll, inserted.accepts_iff, Addition.compatible_cons, List.forall_mem_cons]
  constructor
  · rintro ⟨each, compatible⟩
    exact ⟨⟨inserted.quiet.mp rfl, fun other membership => (each other membership).1⟩,
      fun other membership => (each other membership).2, compatible⟩
  · rintro ⟨⟨-, accepts⟩, agree, compatible⟩
    exact ⟨fun other membership => ⟨accepts other membership, agree other membership⟩, compatible⟩

inductive Runs : Registry → List Addition → Registry → List Collision → Prop
  | nil {registry : Registry} : Runs registry [] registry []
  | cons {registry next final : Registry} {addition : Addition} {rest : List Addition}
      {here later : List Collision} :
      registry.Inserted addition next here → next.files = registry.files + 1 →
      Runs next rest final later → Runs registry (addition :: rest) final (here ++ later)

theorem addEach_cases (registry : Registry) (additions : List Addition) :
    (registry.Succeeds additions ∧
      registry.Runs additions (registry.addEach additions).1 (registry.reported additions)) ∨
    (¬ registry.Succeeds additions ∧ registry.policy = .error ∧
      ¬ registry.AcceptsAll additions) := by
  induction additions generalizing registry with
  | nil => exact .inl ⟨by simp [Succeeds, addEach], .nil⟩
  | cons addition rest inductionHypothesis =>
      rcases registry.add_cases addition with
        ⟨next, collisions, added, files, inserted⟩ | ⟨next, duplicate, added, policy, refused⟩
      · rw [succeeds_cons added, addEach_cons added, reported_cons added]
        rcases inductionHypothesis next with ⟨succeeds, run⟩ | ⟨failed, policy, refused⟩
        · exact .inl ⟨⟨⟨_, rfl⟩, succeeds⟩, .cons inserted files run⟩
        · have strict : registry.policy = .error := inserted.policy.symm.trans policy
          have silent := inserted.strict strict
          subst silent
          exact .inr ⟨fun both => failed both.2, strict,
            fun accepts => refused ((inserted.acceptsAll_iff rest).mpr accepts)⟩
      · rw [succeeds_cons added]
        exact .inr ⟨by simp, policy, fun accepts => refused (accepts.1 addition (by simp))⟩

namespace Runs

variable {registry final : Registry} {additions : List Addition} {collisions : List Collision}
  (run : registry.Runs additions final collisions)

include run

theorem files : final.files = registry.files + additions.length := by
  induction run with
  | nil => rfl
  | cons _ counted _ inductionHypothesis =>
      rw [inductionHypothesis, counted, List.length_cons]
      omega

/-- The entry under a key is settled by the files that define the key, one after the other. -/
theorem stored (kind : Kind) (key : String) :
    final.stored kind key =
      registry.policy.settleAll (registry.stored kind key)
        (Addition.definers kind key additions) := by
  induction run with
  | nil => rfl
  | cons inserted _ _ inductionHypothesis =>
      rw [inductionHypothesis, inserted.policy, inserted.stored, Addition.definers_cons]
      split
      case isTrue => rw [CollisionPolicy.settleAll_cons]
      case isFalse => rfl

theorem quiet : collisions = [] ↔ registry.AcceptsAll additions := by
  induction run with
  | nil => simp [AcceptsAll, Addition.Compatible]
  | @cons registry next _ addition rest here _ inserted _ _ inductionHypothesis =>
      rw [List.append_eq_nil_iff, inductionHypothesis]
      constructor
      · rintro ⟨rfl, accepts⟩
        exact (inserted.acceptsAll_iff rest).mp accepts
      · intro accepts
        have silent := inserted.quiet.mpr (accepts.1 addition (by simp))
        subst silent
        exact ⟨rfl, (inserted.acceptsAll_iff rest).mpr accepts⟩

theorem strict (policy : registry.policy = .error) : collisions = [] := by
  induction run with
  | nil => rfl
  | cons inserted _ _ inductionHypothesis =>
      rw [inserted.strict policy, inductionHypothesis (inserted.policy.trans policy)]
      rfl

end Runs

theorem runs_of_succeeds {registry : Registry} {additions : List Addition}
    (succeeds : registry.Succeeds additions) :
    registry.Runs additions (registry.addEach additions).1 (registry.reported additions) := by
  rcases registry.addEach_cases additions with ⟨-, run⟩ | ⟨failed, -, -⟩
  · exact run
  · exact absurd succeeds failed

theorem succeeds_of_ne_error {registry : Registry} (other : registry.policy ≠ .error)
    (additions : List Addition) : registry.Succeeds additions := by
  rcases registry.addEach_cases additions with ⟨succeeds, -⟩ | ⟨-, policy, -⟩
  · exact succeeds
  · exact absurd policy other

theorem succeeds_iff_acceptsAll {registry : Registry} (policy : registry.policy = .error)
    (additions : List Addition) :
    registry.Succeeds additions ↔ registry.AcceptsAll additions := by
  rcases registry.addEach_cases additions with ⟨succeeds, run⟩ | ⟨failed, -, refused⟩
  · exact iff_of_true succeeds (run.quiet.mp (run.strict policy))
  · exact iff_of_false failed refused

theorem succeeds_iff_compatible (additions : List Addition) :
    Succeeds { policy := .error } additions ↔ Addition.Compatible additions := by
  rw [succeeds_iff_acceptsAll rfl, acceptsAll_empty]

def ofAdditions (policy : CollisionPolicy) (additions : List Addition) : Registry :=
  (addEach { policy } additions).1

theorem ofAdditions_files {policy : CollisionPolicy} {additions : List Addition}
    (succeeds : Succeeds { policy } additions) :
    (ofAdditions policy additions).files = additions.length :=
  (runs_of_succeeds succeeds).files.trans (Nat.zero_add _)

theorem ofAdditions_stored {policy : CollisionPolicy} {additions : List Addition}
    (succeeds : Succeeds { policy } additions) (kind : Kind) (key : String) :
    (ofAdditions policy additions).stored kind key =
      policy.settleAll none (Addition.definers kind key additions) := by
  have stored := (runs_of_succeeds succeeds).stored kind key
  rwa [stored_empty] at stored

/-- What files leave under every key. Under last-wins none of them is refused and the last one that
defines a key stays under it; under first-wins none is refused and the first one stays, up to its
spelling. Under the error policy none is refused exactly if no key is defined for two places. -/
theorem ofAdditions_stored_by_policy (additions : List Addition) :
    (Succeeds { policy := .lastWins } additions ∧
      (ofAdditions .lastWins additions).files = additions.length ∧
      ∀ kind key, (ofAdditions .lastWins additions).stored kind key =
        (Addition.definers kind key additions).getLast?) ∧
    (Succeeds { policy := .firstWins } additions ∧
      (ofAdditions .firstWins additions).files = additions.length ∧
      ∀ kind key, ((ofAdditions .firstWins additions).stored kind key).map Path.components =
        (Addition.definers kind key additions).head?.map Path.components) ∧
    (Succeeds { policy := .error } additions ↔
      ∀ first ∈ additions, ∀ second ∈ additions, ∀ kind key,
        first.Defines kind key → second.Defines kind key → first.path.Same second.path) := by
  have last : Succeeds { policy := .lastWins } additions :=
    succeeds_of_ne_error (by simp) additions
  have first : Succeeds { policy := .firstWins } additions :=
    succeeds_of_ne_error (by simp) additions
  refine ⟨⟨last, ofAdditions_files last, ?_⟩, ⟨first, ofAdditions_files first, ?_⟩, ?_⟩
  · intro kind key
    rw [ofAdditions_stored last, CollisionPolicy.settleAll_of_ne_firstWins (by simp),
      Option.or_none]
  · intro kind key
    rw [ofAdditions_stored first, CollisionPolicy.settleAll_firstWins, Option.none_or]
  · exact succeeds_iff_compatible additions

-- The first file stays under its key, in the spelling that came last.
example :
    (ofAdditions .firstWins [⟨⟨"src/a.php"⟩, [⟨.classLike, "A"⟩]⟩,
      ⟨⟨"src//a.php"⟩, [⟨.classLike, "a"⟩]⟩, ⟨⟨"b.php"⟩, [⟨.classLike, "A"⟩]⟩]).stored
        .classLike "a" = some ⟨"src//a.php"⟩ := by
  decide +kernel

end Registry

end AutoloadIndex
