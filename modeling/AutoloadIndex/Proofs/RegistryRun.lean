import AutoloadIndex.Registry

set_option autoImplicit false

/-!
Runs of a registry. A run is a list of writes, each of which stores one symbol for one file. For
every policy the entry that a run leaves under a key is given in terms of the files that write the
key, in the order of the run: the last of them stays under last-wins, the first under first-wins,
and under the error policy they all have to be one.
-/

namespace AutoloadIndex

namespace Path.Same

theorem rfl {path : Path} : path.Same path := Eq.refl _

theorem symm {first second : Path} (same : first.Same second) : second.Same first := Eq.symm same

theorem trans {first second third : Path} (front : first.Same second) (back : second.Same third) :
    first.Same third := Eq.trans front back

end Path.Same

structure Write where
  path : Path
  symbol : Symbol
deriving DecidableEq, Repr

namespace Write

def Hits (kind : Kind) (key : String) (write : Write) : Prop :=
  write.symbol.kind = kind ∧ Name.key write.symbol.kind write.symbol.name = key

instance (kind : Kind) (key : String) (write : Write) : Decidable (write.Hits kind key) :=
  inferInstanceAs (Decidable (_ ∧ _))

def writers (kind : Kind) (key : String) (writes : List Write) : List Path :=
  (writes.filter fun write => write.Hits kind key).map Write.path

@[simp] theorem writers_nil (kind : Kind) (key : String) : writers kind key [] = [] := rfl

theorem writers_cons (kind : Kind) (key : String) (write : Write) (rest : List Write) :
    writers kind key (write :: rest) =
      if write.Hits kind key then write.path :: writers kind key rest
      else writers kind key rest := by
  by_cases hits : write.Hits kind key <;> simp [writers, hits]

theorem mem_writers {kind : Kind} {key : String} {writes : List Write} {path : Path} :
    path ∈ writers kind key writes ↔ ∃ write ∈ writes, write.Hits kind key ∧ write.path = path := by
  simp [writers, and_assoc]

/-- No key is written for two different places. -/
def Agree (first second : Write) : Prop :=
  ∀ kind key, first.Hits kind key → second.Hits kind key → first.path.Same second.path

end Write

namespace Registry

def stored (registry : Registry) (kind : Kind) (key : String) : Option Path :=
  (registry.index.entries kind)[key]?

theorem get?_eq_stored (registry : Registry) (kind : Kind) (name : String) :
    registry.index.get? kind name = registry.stored kind (Name.key kind name) := rfl

theorem stored_empty (policy : CollisionPolicy) (kind : Kind) (key : String) :
    stored { policy } kind key = none := by
  cases kind <;> simp [stored, Index.entries]

theorem stored_store (registry : Registry) (write : Write) (kind : Kind) (key : String) :
    (registry.store write.symbol.kind write.symbol.name write.path).stored kind key =
      if write.Hits kind key then some write.path else registry.stored kind key := by
  unfold stored store Index.insert
  rw [Index.entries_withEntries]
  by_cases kinds : write.symbol.kind = kind
  · subst kinds
    simp [Write.Hits, Std.TreeMap.getElem?_insert]
  · simp [Write.Hits, kinds]

theorem stored_store_of_hits {registry : Registry} {write : Write} {kind : Kind} {key : String}
    (hits : write.Hits kind key) :
    (registry.store write.symbol.kind write.symbol.name write.path).stored kind key =
      some write.path := by
  rw [stored_store, if_pos hits]

theorem stored_store_of_not_hits {registry : Registry} {write : Write} {kind : Kind}
    {key : String} (misses : ¬ write.Hits kind key) :
    (registry.store write.symbol.kind write.symbol.name write.path).stored kind key =
      registry.stored kind key := by
  rw [stored_store, if_neg misses]

def target (registry : Registry) (write : Write) : Option Path :=
  registry.stored write.symbol.kind (Name.key write.symbol.kind write.symbol.name)

theorem target_of_hits {registry : Registry} {write : Write} {kind : Kind} {key : String}
    (hits : write.Hits kind key) : registry.target write = registry.stored kind key := by
  obtain ⟨rfl, rfl⟩ := hits
  rfl

/-- A write fits if its key is free or stored for the same place. -/
def Fits (registry : Registry) (write : Write) : Prop :=
  ∀ existing, registry.target write = some existing → existing.Same write.path

theorem conflict?_eq_none_iff (registry : Registry) (write : Write) :
    registry.conflict? write.symbol.kind write.symbol.name write.path = none ↔
      registry.Fits write := by
  unfold conflict?
  rw [get?_eq_stored, Option.filter_eq_none_iff]
  simp [Fits, target]

theorem conflict?_eq_some_iff (registry : Registry) (write : Write) (existing : Path) :
    registry.conflict? write.symbol.kind write.symbol.name write.path = some existing ↔
      registry.target write = some existing ∧ ¬ existing.Same write.path := by
  unfold conflict?
  rw [get?_eq_stored, Option.filter_eq_some_iff]
  simp [target]

/-- Runs writes in order, up to the first that fails. -/
def run (registry : Registry) : List Write → Except Duplicate Registry
  | [] => .ok registry
  | write :: rest =>
    match registry.insert write.symbol.kind write.symbol.name write.path with
    | .error duplicate => .error duplicate
    | .ok (registry, _) => registry.run rest

theorem insert_cases (registry : Registry) (write : Write) :
    (∃ collision, registry.insert write.symbol.kind write.symbol.name write.path =
        .ok (registry.store write.symbol.kind write.symbol.name write.path, collision) ∧
      (registry.Fits write ∨ registry.policy = .lastWins)) ∨
    (∃ existing collision, registry.insert write.symbol.kind write.symbol.name write.path =
        .ok (registry, collision) ∧
      registry.target write = some existing ∧ registry.policy = .firstWins) ∨
    (∃ duplicate, registry.insert write.symbol.kind write.symbol.name write.path =
        .error duplicate ∧
      ¬ registry.Fits write ∧ registry.policy = .error) := by
  unfold insert
  cases conflict : registry.conflict? write.symbol.kind write.symbol.name write.path with
  | none => exact .inl ⟨none, rfl, .inl ((conflict?_eq_none_iff registry write).mp conflict)⟩
  | some existing =>
      obtain ⟨stored, differ⟩ := (conflict?_eq_some_iff registry write existing).mp conflict
      cases policy : registry.policy with
      | lastWins => exact .inl ⟨_, rfl, .inr rfl⟩
      | firstWins => exact .inr (.inl ⟨existing, _, rfl, stored, rfl⟩)
      | error => exact .inr (.inr ⟨_, rfl, fun fits => differ (fits existing stored), rfl⟩)

theorem run_cons_of_ok {registry next : Registry} {write : Write} {rest : List Write}
    {collision : Option Collision}
    (inserted : registry.insert write.symbol.kind write.symbol.name write.path =
      .ok (next, collision)) :
    registry.run (write :: rest) = next.run rest := by
  rw [run, inserted]

theorem run_lastWins {registry : Registry} (policy : registry.policy = .lastWins)
    (writes : List Write) : ∃ final, registry.run writes = .ok final := by
  induction writes generalizing registry with
  | nil => exact ⟨registry, rfl⟩
  | cons write rest inductionHypothesis =>
      rcases registry.insert_cases write with
        ⟨collision, inserted, -⟩ | ⟨existing, collision, -, -, other⟩ | ⟨duplicate, -, -, other⟩
      · rw [run_cons_of_ok inserted]
        exact inductionHypothesis policy
      · exact absurd (policy.symm.trans other) (by simp)
      · exact absurd (policy.symm.trans other) (by simp)

theorem run_stored {registry final : Registry} (policy : registry.policy ≠ .firstWins)
    {writes : List Write} (result : registry.run writes = .ok final) (kind : Kind) (key : String) :
    final.stored kind key =
      (Write.writers kind key writes).getLast?.or (registry.stored kind key) := by
  induction writes generalizing registry with
  | nil =>
      cases result
      simp
  | cons write rest inductionHypothesis =>
      rcases registry.insert_cases write with
        ⟨collision, inserted, -⟩ | ⟨existing, collision, -, -, other⟩ | ⟨duplicate, failed, -, -⟩
      · rw [run_cons_of_ok inserted] at result
        have later := inductionHypothesis
          (show (registry.store _ _ _).policy ≠ .firstWins from policy) result
        rw [later, Write.writers_cons]
        by_cases hits : write.Hits kind key
        · rw [if_pos hits, stored_store_of_hits hits, List.getLast?_cons]
          cases (Write.writers kind key rest).getLast? <;> rfl
        · rw [if_neg hits, stored_store_of_not_hits hits]
      · exact absurd other policy
      · rw [run, failed] at result
        exact absurd result (by simp)

/-- Under first-wins no write fails, and the first file that writes a key stays under it. Its
spelling may change, since a file that writes a key again is stored anew. -/
theorem run_firstWins {registry : Registry} (policy : registry.policy = .firstWins)
    (writes : List Write) :
    ∃ final, registry.run writes = .ok final ∧ ∀ kind key,
      (final.stored kind key).map Path.components =
        ((registry.stored kind key).or (Write.writers kind key writes).head?).map
          Path.components := by
  induction writes generalizing registry with
  | nil => exact ⟨registry, rfl, by simp⟩
  | cons write rest inductionHypothesis =>
      rcases registry.insert_cases write with
        ⟨collision, inserted, fits | other⟩ | ⟨existing, collision, inserted, stored, -⟩ |
          ⟨duplicate, -, -, other⟩
      · rw [run_cons_of_ok inserted]
        obtain ⟨final, result, kept⟩ := inductionHypothesis
          (show (registry.store _ _ _).policy = .firstWins from policy)
        refine ⟨final, result, ?_⟩
        intro kind key
        rw [kept, Write.writers_cons]
        by_cases hits : write.Hits kind key
        · rw [if_pos hits, stored_store_of_hits hits]
          cases before : registry.stored kind key with
          | none => rfl
          | some existing =>
              -- What was stored is level with the write, so it does not matter which one stays.
              have same := fits existing ((target_of_hits hits).trans before)
              exact congrArg some same.symm
        · rw [if_neg hits, stored_store_of_not_hits hits]
      · exact absurd (policy.symm.trans other) (by simp)
      · rw [run_cons_of_ok inserted]
        obtain ⟨final, result, kept⟩ := inductionHypothesis policy
        refine ⟨final, result, ?_⟩
        intro kind key
        rw [kept, Write.writers_cons]
        by_cases hits : write.Hits kind key
        · rw [← target_of_hits hits, stored]
          rfl
        · rw [if_neg hits]
      · exact absurd (policy.symm.trans other) (by simp)

theorem run_stored_mem {registry final : Registry} {writes : List Write}
    (result : registry.run writes = .ok final) {kind : Kind} {key : String} {path : Path}
    (stored : final.stored kind key = some path) :
    registry.stored kind key = some path ∨ path ∈ Write.writers kind key writes := by
  induction writes generalizing registry with
  | nil =>
      cases result
      exact .inl stored
  | cons write rest inductionHypothesis =>
      rw [Write.writers_cons]
      rcases registry.insert_cases write with
        ⟨collision, inserted, -⟩ | ⟨existing, collision, inserted, -, -⟩ | ⟨duplicate, failed, -, -⟩
      · rw [run_cons_of_ok inserted] at result
        have later := inductionHypothesis result
        by_cases hits : write.Hits kind key
        · rw [stored_store_of_hits hits] at later
          rw [if_pos hits, List.mem_cons]
          exact .inr (later.imp (fun equality => (Option.some.inj equality).symm) id)
        · rw [stored_store_of_not_hits hits] at later
          rwa [if_neg hits]
      · rw [run_cons_of_ok inserted] at result
        refine (inductionHypothesis result).imp id ?_
        intro membership
        split
        · exact List.mem_cons_of_mem _ membership
        · exact membership
      · rw [run, failed] at result
        exact absurd result (by simp)

theorem fits_store_iff {registry : Registry} {write : Write} (fits : registry.Fits write)
    (other : Write) :
    (registry.store write.symbol.kind write.symbol.name write.path).Fits other ↔
      registry.Fits other ∧ write.Agree other := by
  unfold Fits target
  by_cases hits : write.Hits other.symbol.kind (Name.key other.symbol.kind other.symbol.name)
  · rw [stored_store_of_hits hits]
    constructor
    · intro level
      have same : write.path.Same other.path := level _ rfl
      refine ⟨?_, fun _ _ _ _ => same⟩
      intro existing before
      exact (fits existing ((target_of_hits hits).trans before)).trans same
    · rintro ⟨-, agree⟩ existing stored
      rw [← Option.some.inj stored]
      exact agree _ _ hits ⟨rfl, rfl⟩
  · rw [stored_store_of_not_hits hits]
    refine ⟨fun level => ⟨level, ?_⟩, fun both => both.1⟩
    rintro kind key isWrite ⟨rfl, rfl⟩
    exact absurd isWrite hits

/-- Under the error policy a run succeeds exactly if all its writes fit what is stored before, and
no two writes of a key are for different places. -/
theorem run_error_iff {registry : Registry} (policy : registry.policy = .error)
    (writes : List Write) :
    (∃ final, registry.run writes = .ok final) ↔
      (∀ write ∈ writes, registry.Fits write) ∧ writes.Pairwise Write.Agree := by
  induction writes generalizing registry with
  | nil => simp [run]
  | cons write rest inductionHypothesis =>
      rw [List.forall_mem_cons, List.pairwise_cons]
      rcases registry.insert_cases write with
        ⟨collision, inserted, fits | other⟩ | ⟨existing, collision, -, -, other⟩ |
          ⟨duplicate, failed, misfit, -⟩
      · rw [run_cons_of_ok inserted,
          inductionHypothesis (show (registry.store _ _ _).policy = .error from policy)]
        simp only [fits_store_iff fits]
        constructor
        · rintro ⟨each, pairwise⟩
          exact ⟨⟨fits, fun other membership => (each other membership).1⟩,
            fun other membership => (each other membership).2, pairwise⟩
        · rintro ⟨⟨-, each⟩, agree, pairwise⟩
          exact ⟨fun other membership => ⟨each other membership, agree other membership⟩, pairwise⟩
      · exact absurd (policy.symm.trans other) (by simp)
      · exact absurd (policy.symm.trans other) (by simp)
      · constructor
        · rintro ⟨final, result⟩
          rw [run, failed] at result
          exact absurd result (by simp)
        · rintro ⟨⟨fits, -⟩, -⟩
          exact absurd fits misfit

theorem run_append (registry : Registry) (first second : List Write) :
    registry.run (first ++ second) =
      match registry.run first with
      | .ok middle => middle.run second
      | .error duplicate => .error duplicate := by
  induction first generalizing registry with
  | nil => rfl
  | cons write rest inductionHypothesis =>
      rw [List.cons_append, run, run]
      cases registry.insert write.symbol.kind write.symbol.name write.path with
      | error duplicate => rfl
      | ok inserted => exact inductionHypothesis inserted.1

def withFiles (registry : Registry) (files : Nat) : Registry := { registry with files }

theorem run_withFiles (registry : Registry) (files : Nat) (writes : List Write) :
    (registry.withFiles files).run writes = (registry.run writes).map (·.withFiles files) := by
  induction writes generalizing registry with
  | nil => rfl
  | cons write rest inductionHypothesis =>
      have inserted : (registry.withFiles files).insert write.symbol.kind write.symbol.name
          write.path = (registry.insert write.symbol.kind write.symbol.name write.path).map
            fun (next, collision) => (next.withFiles files, collision) := by
        have same : (registry.withFiles files).conflict? write.symbol.kind write.symbol.name
            write.path = registry.conflict? write.symbol.kind write.symbol.name write.path := rfl
        unfold insert
        rw [same]
        cases registry.conflict? write.symbol.kind write.symbol.name write.path with
        | none => rfl
        | some existing =>
            cases policy : registry.policy <;> simp [withFiles, policy, Except.map, store]
      rw [run, run, inserted]
      cases registry.insert write.symbol.kind write.symbol.name write.path with
      | error duplicate => rfl
      | ok next => exact inductionHypothesis next.1

theorem run_files {registry final : Registry} {writes : List Write}
    (result : registry.run writes = .ok final) : final.files = registry.files := by
  have moved := registry.run_withFiles registry.files writes
  rw [show registry.withFiles registry.files = registry from rfl, result] at moved
  have equality : final = final.withFiles registry.files := Except.ok.inj moved
  rw [equality]
  rfl

/-- Adding the symbols of one file is a run of their writes. -/
theorem insertAll_eq_run (registry : Registry) (path : Path) (symbols : List Symbol) :
    (∃ final collisions, registry.run (symbols.map (Write.mk path)) = .ok final ∧
      registry.insertAll path symbols = (final, .ok collisions)) ∨
    (∃ duplicate final, registry.run (symbols.map (Write.mk path)) = .error duplicate ∧
      registry.insertAll path symbols = (final, .error duplicate)) := by
  induction symbols generalizing registry with
  | nil => exact .inl ⟨registry, [], rfl, rfl⟩
  | cons symbol rest inductionHypothesis =>
      rw [List.map_cons, run, insertAll]
      cases registry.insert symbol.kind symbol.name path with
      | error duplicate => exact .inr ⟨duplicate, registry, rfl, rfl⟩
      | ok inserted =>
          obtain ⟨next, collision⟩ := inserted
          rcases inductionHypothesis next with
            ⟨final, collisions, ran, added⟩ | ⟨duplicate, final, ran, added⟩
          · exact .inl ⟨final, collision.toList ++ collisions, ran, by simp [added, Except.map]⟩
          · exact .inr ⟨duplicate, final, ran, by simp [added, Except.map]⟩

end Registry

end AutoloadIndex
