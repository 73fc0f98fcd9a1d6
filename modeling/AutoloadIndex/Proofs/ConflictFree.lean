import AutoloadIndex.Proofs.Additions
import AutoloadIndex.Proofs.IndexEquality

set_option autoImplicit false

/-!
Files without conflicts. Whether files define a key for two different places depends neither on
their order nor on the policy. If they do not, every policy adds them without a collision, in every
order, and the index that they leave is always the same.
-/

namespace AutoloadIndex

namespace CollisionPolicy

theorem settle_cases (policy : CollisionPolicy) (existing : Option Path) (path : Path) :
    policy.settle existing path = path ∨ existing = some (policy.settle existing path) := by
  unfold settle
  split
  · split
    · exact .inl rfl
    · exact .inr rfl
  · exact .inl rfl

theorem mem_of_settleAll {policy : CollisionPolicy} {existing : Option Path} {paths : List Path}
    {kept : Path} (settled : policy.settleAll existing paths = some kept) :
    existing = some kept ∨ kept ∈ paths := by
  induction paths generalizing existing with
  | nil => exact .inl settled
  | cons path rest inductionHypothesis =>
      rw [settleAll_cons] at settled
      rcases inductionHypothesis settled with here | later
      · have equality := Option.some.inj here
        rcases policy.settle_cases existing path with isPath | isExisting
        · exact .inr (by simp [← equality, isPath])
        · exact .inl (isExisting.trans here)
      · exact .inr (List.mem_cons_of_mem path later)

theorem exists_settleAll (policy : CollisionPolicy) (existing : Path) (paths : List Path) :
    ∃ kept, policy.settleAll (some existing) paths = some kept := by
  induction paths generalizing existing with
  | nil => exact ⟨existing, rfl⟩
  | cons path rest inductionHypothesis =>
      rw [settleAll_cons]
      exact inductionHypothesis _

theorem exists_settleAll_of_mem (policy : CollisionPolicy) {path : Path} {paths : List Path}
    (membership : path ∈ paths) : ∃ kept, policy.settleAll none paths = some kept := by
  cases paths with
  | nil => exact absurd membership (by simp)
  | cons first rest =>
      rw [settleAll_cons]
      exact policy.exists_settleAll _ rest

end CollisionPolicy

namespace Addition

theorem Compatible.perm {additions order : List Addition} (compatible : Compatible additions)
    (perm : order.Perm additions) : Compatible order := by
  intro first isFirst second isSecond
  exact compatible first (perm.mem_iff.mp isFirst) second (perm.mem_iff.mp isSecond)

theorem Compatible.same_of_mem_definers {additions : List Addition}
    (compatible : Compatible additions) {kind : Kind} {key : String} {first second : Path}
    (isFirst : first ∈ definers kind key additions)
    (isSecond : second ∈ definers kind key additions) : first.Same second := by
  obtain ⟨addition, membership, defines, rfl⟩ := mem_definers.mp isFirst
  obtain ⟨other, isOther, otherDefines, rfl⟩ := mem_definers.mp isSecond
  exact compatible addition membership other isOther kind key defines otherDefines

theorem mem_definers_perm {additions order : List Addition} (perm : order.Perm additions)
    (kind : Kind) (key : String) (path : Path) :
    path ∈ definers kind key order ↔ path ∈ definers kind key additions := by
  simp only [mem_definers, perm.mem_iff]

end Addition

namespace Registry

theorem reported_eq_nil_iff {policy : CollisionPolicy} (other : policy ≠ .error)
    (additions : List Addition) :
    reported { policy } additions = [] ↔ Addition.Compatible additions := by
  have succeeds : Succeeds { policy } additions := succeeds_of_ne_error other additions
  rw [(runs_of_succeeds succeeds).quiet, acceptsAll_empty]

theorem succeeds_of_compatible (policy : CollisionPolicy) {additions : List Addition}
    (compatible : Addition.Compatible additions) : Succeeds { policy } additions := by
  by_cases strict : policy = .error
  · subst strict
    exact (succeeds_iff_compatible additions).mpr compatible
  · exact succeeds_of_ne_error strict additions

/-- Without a conflict, the place under a key is that of every file that defines the key. -/
theorem ofAdditions_place_iff (policy : CollisionPolicy) {additions : List Addition}
    (compatible : Addition.Compatible additions) (kind : Kind) (key : String)
    (place : List Path.Component) :
    ((ofAdditions policy additions).stored kind key).map Path.components = some place ↔
      ∃ path ∈ Addition.definers kind key additions, path.components = place := by
  rw [ofAdditions_stored (succeeds_of_compatible policy compatible), Option.map_eq_some_iff]
  constructor
  · rintro ⟨kept, settled, place⟩
    have membership := (CollisionPolicy.mem_of_settleAll settled).resolve_left (by simp)
    exact ⟨kept, membership, place⟩
  · rintro ⟨path, membership, rfl⟩
    obtain ⟨kept, settled⟩ := policy.exists_settleAll_of_mem membership
    have isKept := (CollisionPolicy.mem_of_settleAll settled).resolve_left (by simp)
    exact ⟨kept, settled, compatible.same_of_mem_definers isKept membership⟩

theorem ofAdditions_same {additions : List Addition}
    (compatible : Addition.Compatible additions) (policy other : CollisionPolicy)
    {order reordered : List Addition} (perm : order.Perm additions)
    (otherPerm : reordered.Perm additions) :
    (ofAdditions policy order).index.same (ofAdditions other reordered).index = true := by
  rw [Index.same_iff]
  intro kind key
  apply Option.ext
  intro place
  have first := ofAdditions_place_iff policy (compatible.perm perm) kind key place
  have second := ofAdditions_place_iff other (compatible.perm otherPerm) kind key place
  simp only [Addition.mem_definers_perm perm] at first
  simp only [Addition.mem_definers_perm otherPerm] at second
  exact first.trans second.symm

/-- Files can be added under the error policy exactly if they meet no collision under last-wins,
exactly if they meet none under first-wins, and exactly if they can be added in every order. Then
neither the policy nor the order makes a difference to the index. -/
theorem ofAdditions_order_free (additions : List Addition) :
    (Succeeds { policy := .error } additions ↔
      reported { policy := .lastWins } additions = []) ∧
    (Succeeds { policy := .error } additions ↔
      reported { policy := .firstWins } additions = []) ∧
    (Succeeds { policy := .error } additions ↔
      ∀ order : List Addition, order.Perm additions → Succeeds { policy := .error } order) ∧
    (Succeeds { policy := .error } additions →
      ∀ policy other, ∀ order reordered : List Addition,
        order.Perm additions → reordered.Perm additions →
          (ofAdditions policy order).index.same (ofAdditions other reordered).index = true) := by
  simp only [succeeds_iff_compatible]
  refine ⟨(reported_eq_nil_iff (by simp) additions).symm,
    (reported_eq_nil_iff (by simp) additions).symm, ?_, ?_⟩
  · constructor
    · intro compatible order perm
      exact compatible.perm perm
    · intro each
      exact each additions (.refl additions)
  · intro compatible policy other order reordered perm otherPerm
    exact ofAdditions_same compatible policy other perm otherPerm

/-- Two files of one place, in two spellings, and a third one. -/
def spelledTwice : List Addition :=
  [⟨⟨"src/a.php"⟩, [⟨.classLike, "A"⟩]⟩, ⟨⟨"b.php"⟩, [⟨.function, "f"⟩]⟩,
    ⟨⟨"src//a.php"⟩, [⟨.classLike, "a"⟩, ⟨.constant, "A"⟩]⟩]

theorem ofAdditions_spelledTwice :
    Succeeds { policy := .error } spelledTwice ∧
      reported { policy := .lastWins } spelledTwice = [] ∧
      (ofAdditions .lastWins spelledTwice.reverse).index.same
        (ofAdditions .firstWins spelledTwice).index = true := by
  have succeeds : Succeeds { policy := .error } spelledTwice := by decide +kernel
  obtain ⟨last, -, -, same⟩ := ofAdditions_order_free spelledTwice
  exact ⟨succeeds, last.mp succeeds,
    same succeeds _ _ _ _ (List.reverse_perm _) (List.Perm.refl _)⟩

end Registry

end AutoloadIndex
