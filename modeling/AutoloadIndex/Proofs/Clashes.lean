import Mathlib.Data.List.Basic
import AutoloadIndex.Proofs.Additions

set_option autoImplicit false

/-!
Clashes of a file with a registry: its symbols whose keys are stored for another place. A file is
added symbol by symbol, and each symbol is held against what the earlier ones have left. Which
collisions are reported is nevertheless given by the clashes with the registry from before.
-/

namespace AutoloadIndex

def Symbol.slot (symbol : Symbol) : Kind × String :=
  (symbol.kind, Name.key symbol.kind symbol.name)

/-- A symbol whose key is stored for another place, and the file that is stored there. -/
structure Clash where
  symbol : Symbol
  previous : Path
deriving DecidableEq, Repr

namespace Clash

def report (clash : Clash) (incoming kept : Path) : Collision :=
  ⟨clash.symbol.kind, clash.symbol.name, clash.previous, incoming, kept⟩

def firstOfEach (clashes : List Clash) : List Clash :=
  clashes.eraseDupsBy fun later first => later.symbol.slot == first.symbol.slot

theorem firstOfEach_cons (clash : Clash) (rest : List Clash) :
    firstOfEach (clash :: rest) =
      clash :: firstOfEach (rest.filter fun later => later.symbol.slot ≠ clash.symbol.slot) := by
  simp [firstOfEach, List.eraseDupsBy_cons]

theorem mem_of_mem_firstOfEach {clash : Clash} :
    ∀ {clashes : List Clash}, clash ∈ firstOfEach clashes → clash ∈ clashes
  | [], membership => membership
  | first :: rest, membership => by
      rw [firstOfEach_cons, List.mem_cons] at membership
      rcases membership with rfl | later
      · exact List.mem_cons_self
      · exact List.mem_cons_of_mem first (List.mem_filter.mp (mem_of_mem_firstOfEach later)).1
termination_by clashes => clashes.length
decreasing_by exact Nat.lt_succ_of_le (List.length_filter_le _ _)

theorem exists_mem_firstOfEach {clash : Clash} :
    ∀ {clashes : List Clash}, clash ∈ clashes →
      ∃ first ∈ firstOfEach clashes, first.symbol.slot = clash.symbol.slot
  | [], membership => absurd membership List.not_mem_nil
  | first :: rest, membership => by
      rw [firstOfEach_cons]
      by_cases same : clash.symbol.slot = first.symbol.slot
      · exact ⟨first, List.mem_cons_self, same.symm⟩
      · have inRest : clash ∈ rest := by
          rcases List.mem_cons.mp membership with rfl | later
          · exact absurd rfl same
          · exact later
        have left : clash ∈ rest.filter fun later => later.symbol.slot ≠ first.symbol.slot :=
          List.mem_filter.mpr ⟨inRest, decide_eq_true same⟩
        obtain ⟨found, isFound, slots⟩ := exists_mem_firstOfEach left
        exact ⟨found, List.mem_cons_of_mem first isFound, slots⟩
termination_by clashes => clashes.length
decreasing_by exact Nat.lt_succ_of_le (List.length_filter_le _ _)

end Clash

/-- The collisions that are reported of the clashes of a file. -/
def CollisionPolicy.reports (policy : CollisionPolicy) (path : Path) (clashes : List Clash) :
    List Collision :=
  match policy with
  | .lastWins => (Clash.firstOfEach clashes).map fun clash => clash.report path path
  | .firstWins => clashes.map fun clash => clash.report path clash.previous
  | .error => []

namespace Registry

def clash? (registry : Registry) (path : Path) (symbol : Symbol) : Option Clash :=
  match registry.target ⟨path, symbol⟩ with
  | some previous => if previous.Same path then none else some ⟨symbol, previous⟩
  | none => none

def clashes (registry : Registry) (path : Path) (symbols : List Symbol) : List Clash :=
  symbols.filterMap (registry.clash? path)

variable {registry : Registry} {path : Path}

theorem clash?_eq_some_iff {symbol : Symbol} {clash : Clash} :
    registry.clash? path symbol = some clash ↔
      clash.symbol = symbol ∧ registry.target ⟨path, symbol⟩ = some clash.previous ∧
        ¬ clash.previous.Same path := by
  obtain ⟨own, previous⟩ := clash
  unfold clash?
  cases registry.target ⟨path, symbol⟩ <;> grind

theorem clash?_eq_none_iff {symbol : Symbol} :
    registry.clash? path symbol = none ↔ registry.Fits ⟨path, symbol⟩ := by
  unfold clash? Fits
  cases registry.target ⟨path, symbol⟩ <;> grind

theorem mem_clashes {symbols : List Symbol} {clash : Clash} :
    clash ∈ registry.clashes path symbols ↔
      clash.symbol ∈ symbols ∧ registry.target ⟨path, clash.symbol⟩ = some clash.previous ∧
        ¬ clash.previous.Same path := by
  unfold clashes
  simp only [List.mem_filterMap, clash?_eq_some_iff]
  constructor
  · rintro ⟨symbol, membership, rfl, found⟩
    exact ⟨membership, found⟩
  · rintro ⟨membership, found⟩
    exact ⟨clash.symbol, membership, rfl, found⟩

theorem insert_eq (registry : Registry) (path : Path) (symbol : Symbol) :
    registry.insert symbol.kind symbol.name path =
      match registry.clash? path symbol with
      | none => .ok (registry.store symbol.kind symbol.name path, none)
      | some clash =>
        match registry.policy with
        | .lastWins =>
          .ok (registry.store symbol.kind symbol.name path, some (clash.report path path))
        | .firstWins => .ok (registry, some (clash.report path clash.previous))
        | .error => .error ⟨symbol.kind, symbol.name, clash.previous, path⟩ := by
  have same : registry.conflict? symbol.kind symbol.name path =
      (registry.clash? path symbol).map Clash.previous := by
    cases clash : registry.clash? path symbol with
    | none =>
        exact (registry.conflict?_eq_none_iff ⟨path, symbol⟩).mpr (clash?_eq_none_iff.mp clash)
    | some clash =>
        exact (registry.conflict?_eq_some_iff ⟨path, symbol⟩ _).mpr (clash?_eq_some_iff.mp clash).2
  unfold insert
  rw [same]
  cases found : registry.clash? path symbol with
  | none => rfl
  | some clash =>
      obtain ⟨rfl, -⟩ := clash?_eq_some_iff.mp found
      rfl

theorem clash?_eq_none_of_slot {symbol other : Symbol} (same : other.slot = symbol.slot)
    (clear : registry.clash? path symbol = none) : registry.clash? path other = none := by
  have targets : registry.target ⟨path, other⟩ = registry.target ⟨path, symbol⟩ :=
    congrArg (fun slot : Kind × String => registry.stored slot.1 slot.2) same
  rw [clash?_eq_none_iff] at clear ⊢
  intro existing stored
  exact clear existing (targets.symm.trans stored)

theorem target_store (symbol other : Symbol) :
    (registry.store symbol.kind symbol.name path).target ⟨path, other⟩ =
      if other.slot = symbol.slot then some path else registry.target ⟨path, other⟩ := by
  have hits : (Write.mk path symbol).Hits other.kind (Name.key other.kind other.name) ↔
      other.slot = symbol.slot := by
    simp only [Write.Hits, Symbol.slot, Prod.mk.injEq, eq_comm]
  have stored := registry.stored_store ⟨path, symbol⟩ other.kind (Name.key other.kind other.name)
  simp only [hits] at stored
  exact stored

/-- Once a symbol of the file is stored, there is no clash under its key, and the others are as
before. -/
theorem clash?_store (symbol other : Symbol) :
    (registry.store symbol.kind symbol.name path).clash? path other =
      if other.slot = symbol.slot then none else registry.clash? path other := by
  unfold clash?
  rw [target_store]
  by_cases same : other.slot = symbol.slot
  · rw [if_pos same, if_pos same]
    exact if_pos Path.Same.rfl
  · rw [if_neg same, if_neg same]

theorem clashes_store (symbol : Symbol) (rest : List Symbol) :
    (registry.store symbol.kind symbol.name path).clashes path rest =
      (registry.clashes path rest).filter fun later => later.symbol.slot ≠ symbol.slot := by
  unfold clashes
  rw [List.filter_filterMap]
  refine List.filterMap_congr ?_
  intro other _
  rw [clash?_store]
  cases found : registry.clash? path other with
  | none => simp
  | some clash =>
      obtain ⟨rfl, -⟩ := clash?_eq_some_iff.mp found
      simp [Option.filter]

theorem clashes_store_of_none {symbol : Symbol} (clear : registry.clash? path symbol = none)
    (rest : List Symbol) :
    (registry.store symbol.kind symbol.name path).clashes path rest =
      registry.clashes path rest := by
  unfold clashes
  refine List.filterMap_congr ?_
  intro other _
  rw [clash?_store]
  split
  case isTrue same => exact (clash?_eq_none_of_slot same clear).symm
  case isFalse => rfl

theorem clashes_cons_of_none {symbol : Symbol} (clear : registry.clash? path symbol = none)
    (rest : List Symbol) :
    registry.clashes path (symbol :: rest) = registry.clashes path rest :=
  List.filterMap_cons_none clear

theorem clashes_cons_of_some {symbol : Symbol} {clash : Clash}
    (found : registry.clash? path symbol = some clash) (rest : List Symbol) :
    registry.clashes path (symbol :: rest) = clash :: registry.clashes path rest :=
  List.filterMap_cons_some found

theorem insertAll_cons_of_ok {symbol : Symbol} {next : Registry} {collision : Option Collision}
    (inserted : registry.insert symbol.kind symbol.name path = .ok (next, collision))
    (rest : List Symbol) :
    registry.insertAll path (symbol :: rest) =
      ((next.insertAll path rest).1,
        (next.insertAll path rest).2.map (collision.toList ++ ·)) := by
  rw [insertAll, inserted]

/-- Unless a clash is forbidden, adding symbols reports what the policy reports of the clashes. -/
theorem insertAll_reports {registry : Registry} (settles : registry.policy ≠ .error) (path : Path)
    (symbols : List Symbol) :
    (registry.insertAll path symbols).2 =
      .ok (registry.policy.reports path (registry.clashes path symbols)) := by
  induction symbols generalizing registry with
  | nil => cases registry.policy <;> rfl
  | cons symbol rest inductionHypothesis =>
      have later := inductionHypothesis
        (show (registry.store symbol.kind symbol.name path).policy ≠ .error from settles)
      have inserted := registry.insert_eq path symbol
      cases found : registry.clash? path symbol with
      | none =>
          rw [found] at inserted
          rw [insertAll_cons_of_ok inserted, later, clashes_store_of_none found,
            clashes_cons_of_none found]
          rfl
      | some clash =>
          obtain ⟨rfl, -⟩ := clash?_eq_some_iff.mp found
          rw [clashes_cons_of_some found]
          cases policy : registry.policy with
          | lastWins =>
              -- The symbol is stored, so that later ones of its key clash no more.
              rw [found, policy] at inserted
              rw [insertAll_cons_of_ok inserted, later, clashes_store,
                show (registry.store _ _ path).policy = .lastWins from policy,
                CollisionPolicy.reports, CollisionPolicy.reports, Clash.firstOfEach_cons]
              rfl
          | firstWins =>
              rw [found, policy] at inserted
              rw [insertAll_cons_of_ok inserted, inductionHypothesis settles, policy]
              rfl
          | error => exact absurd policy settles

theorem add_outcome (registry : Registry) (path : Path) (symbols : List Symbol) :
    (registry.add path symbols).2 =
      (registry.insertAll path symbols).2.map (Added.mk symbols.length) := by
  unfold add
  rcases registry.insertAll path symbols with ⟨next, duplicate | collisions⟩ <;> rfl

section Success

variable {next : Registry} {symbols : List Symbol} {added : Added}
  (success : registry.add path symbols = (next, .ok added))

include success

theorem inserted_of_add :
    added.definitions = symbols.length ∧
      registry.Inserted ⟨path, symbols⟩ next added.collisions := by
  rcases registry.add_cases ⟨path, symbols⟩ with
    ⟨final, collisions, isAdded, -, inserted⟩ | ⟨final, duplicate, refused, -, -⟩
  · cases isAdded.symm.trans success
    exact ⟨rfl, inserted⟩
  · cases refused.symm.trans success

theorem collisions_eq :
    added.collisions = registry.policy.reports path (registry.clashes path symbols) := by
  by_cases policy : registry.policy = .error
  · rw [(inserted_of_add success).2.strict policy, policy]
    rfl
  · have outcome := registry.add_outcome path symbols
    rw [success, insertAll_reports policy] at outcome
    cases outcome
    rfl

theorem stored_of_clash {clash : Clash} (membership : clash ∈ registry.clashes path symbols) :
    next.stored clash.symbol.kind (Name.key clash.symbol.kind clash.symbol.name) =
      some (registry.policy.settle (some clash.previous) path) := by
  obtain ⟨isSymbol, target, -⟩ := mem_clashes.mp membership
  rw [(inserted_of_add success).2.stored, if_pos ⟨clash.symbol, isSymbol, rfl, rfl⟩, ← target]
  rfl

theorem kept_is_stored {collision : Collision} (reported : collision ∈ added.collisions) :
    next.stored collision.kind (Name.key collision.kind collision.name) = some collision.kept := by
  rw [collisions_eq success] at reported
  cases policy : registry.policy with
  | lastWins =>
      rw [policy] at reported
      obtain ⟨clash, isFirst, rfl⟩ := List.mem_map.mp reported
      have stored := stored_of_clash success (Clash.mem_of_mem_firstOfEach isFirst)
      rwa [policy] at stored
  | firstWins =>
      rw [policy] at reported
      obtain ⟨clash, membership, rfl⟩ := List.mem_map.mp reported
      have stored := stored_of_clash success membership
      obtain ⟨-, -, differ⟩ := mem_clashes.mp membership
      rwa [policy, CollisionPolicy.settle_firstWins_of_not_same differ] at stored
  | error =>
      rw [policy] at reported
      exact absurd reported List.not_mem_nil

theorem exists_report {clash : Clash} (membership : clash ∈ registry.clashes path symbols) :
    ∃ collision ∈ added.collisions,
      (collision.kind, Name.key collision.kind collision.name) = clash.symbol.slot := by
  cases policy : registry.policy with
  | lastWins =>
      obtain ⟨first, isFirst, same⟩ := Clash.exists_mem_firstOfEach membership
      refine ⟨first.report path path, ?_, same⟩
      rw [collisions_eq success, policy]
      exact List.mem_map.mpr ⟨first, isFirst, rfl⟩
  | firstWins =>
      refine ⟨clash.report path clash.previous, ?_, rfl⟩
      rw [collisions_eq success, policy]
      exact List.mem_map.mpr ⟨clash, membership, rfl⟩
  | error =>
      -- A file that is added under the error policy was accepted, and so has no clash.
      have inserted := (inserted_of_add success).2
      have accepted := inserted.quiet.mp (inserted.strict policy)
      obtain ⟨isSymbol, target, differ⟩ := mem_clashes.mp membership
      exact absurd (accepted _ _ _ ⟨clash.symbol, isSymbol, rfl, rfl⟩ target) differ

theorem place_kept {kind : Kind} {key : String} {existing : Path}
    (before : registry.stored kind key = some existing) :
    (∃ path, next.stored kind key = some path ∧ path.Same existing) ∨
      ∃ collision ∈ added.collisions,
        (collision.kind, Name.key collision.kind collision.name) = (kind, key) := by
  have stored := (inserted_of_add success).2.stored kind key
  split at stored
  case isFalse => exact .inl ⟨existing, stored.trans before, Path.Same.rfl⟩
  case isTrue defines =>
      obtain ⟨symbol, membership, rfl, rfl⟩ := defines
      by_cases same : existing.Same path
      · rw [before, CollisionPolicy.settle_of_same _ same] at stored
        exact .inl ⟨path, stored, same.symm⟩
      · have clashes : ⟨symbol, existing⟩ ∈ registry.clashes path symbols :=
          mem_clashes.mpr ⟨membership, before, same⟩
        exact .inr (exists_report success clashes)

end Success

/-- What is reported of a file that is added. Its clashes are those with the registry from before.
Under last-wins the first clash of every key is reported, and the file stays; under first-wins every
clash is, and the previous file stays; under the error policy there is none. No entry goes to
another place without a report for its key, and the file that is reported to stay is stored. -/
theorem add_reports {registry next : Registry} {path : Path} {symbols : List Symbol}
    {added : Added} (success : registry.add path symbols = (next, .ok added)) :
    added.definitions = symbols.length ∧
    (registry.policy = .lastWins →
      added.collisions = (Clash.firstOfEach (registry.clashes path symbols)).map fun clash =>
        clash.report path path) ∧
    (registry.policy = .firstWins →
      added.collisions = (registry.clashes path symbols).map fun clash =>
        clash.report path clash.previous) ∧
    (registry.policy = .error → added.collisions = []) ∧
    (∀ kind key existing, registry.stored kind key = some existing →
      (∃ path, next.stored kind key = some path ∧ path.Same existing) ∨
        ∃ collision ∈ added.collisions,
          (collision.kind, Name.key collision.kind collision.name) = (kind, key)) ∧
    ∀ collision ∈ added.collisions,
      next.stored collision.kind (Name.key collision.kind collision.name) =
        some collision.kept := by
  have collisions := collisions_eq success
  refine ⟨(inserted_of_add success).1, ?_, ?_, ?_, ?_, ?_⟩
  · intro policy
    rw [collisions, policy]
    rfl
  · intro policy
    rw [collisions, policy]
    rfl
  · intro policy
    rw [collisions, policy]
    rfl
  · intro kind key existing before
    exact place_kept success before
  · intro collision reported
    exact kept_is_stored success reported

def stocked (policy : CollisionPolicy) : Registry :=
  ofAdditions policy [⟨⟨"src/a.php"⟩, [⟨.classLike, "A"⟩]⟩, ⟨⟨"b.php"⟩, [⟨.function, "f"⟩]⟩]

def rivals : List Symbol :=
  [⟨.classLike, "a"⟩, ⟨.constant, "N"⟩, ⟨.classLike, "A"⟩, ⟨.function, "f"⟩]

theorem add_reports_rivals :
    ∃ next, (stocked .lastWins).add ⟨"c.php"⟩ rivals = (next, .ok ⟨4,
        [⟨.classLike, "a", ⟨"src/a.php"⟩, ⟨"c.php"⟩, ⟨"c.php"⟩⟩,
          ⟨.function, "f", ⟨"b.php"⟩, ⟨"c.php"⟩, ⟨"c.php"⟩⟩]⟩) ∧
      (Clash.firstOfEach ((stocked .lastWins).clashes ⟨"c.php"⟩ rivals)).map
          (fun clash => clash.report ⟨"c.php"⟩ ⟨"c.php"⟩) =
        [⟨.classLike, "a", ⟨"src/a.php"⟩, ⟨"c.php"⟩, ⟨"c.php"⟩⟩,
          ⟨.function, "f", ⟨"b.php"⟩, ⟨"c.php"⟩, ⟨"c.php"⟩⟩] ∧
      next.stored .classLike "a" = some ⟨"c.php"⟩ := by
  have success : (stocked .lastWins).add ⟨"c.php"⟩ rivals =
      (((stocked .lastWins).add ⟨"c.php"⟩ rivals).1, .ok ⟨4,
        [⟨.classLike, "a", ⟨"src/a.php"⟩, ⟨"c.php"⟩, ⟨"c.php"⟩⟩,
          ⟨.function, "f", ⟨"b.php"⟩, ⟨"c.php"⟩, ⟨"c.php"⟩⟩]⟩) :=
    Prod.ext rfl (by decide +kernel)
  obtain ⟨-, lastWins, -, -, -, kept⟩ := add_reports success
  exact ⟨_, success, (lastWins (by decide +kernel)).symm, kept _ List.mem_cons_self⟩

end Registry

end AutoloadIndex
