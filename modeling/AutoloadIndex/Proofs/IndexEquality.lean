import AutoloadIndex.Comparison

set_option autoImplicit false

/-!
Tables are determined by their look-ups: two tables in which every key has the same file list the
same entries, and two indexes are the same exactly if every key has the same place in both. The
comparison of two indexes with equal look-ups finds nothing.
-/

namespace AutoloadIndex

namespace Index

theorem toList_eq_of_getElem? {first second : Table}
    (equal : ∀ key : String, first[key]? = second[key]?) : first.toList = second.toList :=
  (Std.TreeMap.Equiv.of_forall_constGet?_eq equal).toList_eq

theorem sameTable_iff (first second : Table) :
    sameTable first second = true ↔
      ∀ key : String, first[key]?.map Path.components = second[key]?.map Path.components := by
  -- Both sides speak of the tables from keys to the components of their files.
  let places : Table → Std.TreeMap String (List Path.Component) :=
    fun table => table.map fun _ path => path.components
  have listed : ∀ table : Table, (places table).toList =
      table.toList.map fun entry => (entry.1, entry.2.components) :=
    fun _ => Std.TreeMap.toList_map
  have found : ∀ (table : Table) (key : String), (places table)[key]? =
      table[key]?.map Path.components :=
    fun _ _ => Std.TreeMap.getElem?_map
  unfold sameTable
  rw [beq_iff_eq, ← listed, ← listed, ← Std.TreeMap.equiv_iff_toList_eq]
  simp only [← found]
  exact ⟨fun equal _ => equal.getElem?_eq, .of_forall_constGet?_eq⟩

theorem same_iff (first second : Index) :
    first.same second = true ↔ ∀ kind, ∀ key : String,
      (first.entries kind)[key]?.map Path.components =
        (second.entries kind)[key]?.map Path.components := by
  unfold same
  rw [List.all_eq_true]
  constructor
  · intro each kind
    exact (sameTable_iff _ _).mp (each kind kind.mem_all)
  · intro each kind _
    exact (sameTable_iff _ _).mpr (each kind)

end Index

namespace Comparison

theorem mem_missing {first second : Table} {key : String} :
    key ∈ missing first second ↔ key ∈ first ∧ key ∉ second := by
  unfold missing
  rw [List.mem_filter, Std.TreeMap.mem_keys, Bool.not_eq_true', ← Bool.not_eq_true,
    Std.TreeMap.mem_iff_contains (t := second)]

theorem mem_changes {first second : Table} {change : ChangedPath} :
    change ∈ changes first second ↔
      first[change.name]? = some change.first ∧ second[change.name]? = some change.second ∧
        ¬ change.first.Same change.second := by
  unfold changes
  rw [List.mem_filterMap]
  constructor
  · rintro ⟨⟨name, path⟩, listed, found⟩
    rw [Std.TreeMap.mem_toList_iff_getElem?_eq_some] at listed
    dsimp only at found
    split at found
    case h_1 other stored =>
        split at found
        case isTrue => exact absurd found (by simp)
        case isFalse differ =>
            cases found
            exact ⟨listed, stored, differ⟩
    case h_2 => exact absurd found (by simp)
  · rintro ⟨listed, stored, differ⟩
    refine ⟨(change.name, change.first), ?_, ?_⟩
    · exact Std.TreeMap.mem_toList_iff_getElem?_eq_some.mpr listed
    · simp [stored, differ]

section Equal

variable {first second : Table} (equal : ∀ key : String, first[key]? = second[key]?)

include equal

theorem missing_eq_nil : missing first second = [] := by
  rw [List.eq_nil_iff_forall_not_mem]
  intro key membership
  obtain ⟨inFirst, notInSecond⟩ := mem_missing.mp membership
  rw [Std.TreeMap.mem_iff_isSome_getElem?] at inFirst notInSecond
  exact notInSecond (equal key ▸ inFirst)

theorem changes_eq_nil : changes first second = [] := by
  rw [List.eq_nil_iff_forall_not_mem]
  intro change membership
  obtain ⟨inFirst, inSecond, differ⟩ := mem_changes.mp membership
  have one : change.first = change.second :=
    Option.some.inj (inFirst.symm.trans ((equal change.name).trans inSecond))
  exact differ (congrArg Path.components one)

theorem retained_getElem?_eq (exclude : String) (key : String) :
    (retained exclude first)[key]? = (retained exclude second)[key]? := by
  unfold retained
  rw [Std.TreeMap.getElem?_filter, Std.TreeMap.getElem?_filter, equal]

end Equal

theorem compare_eq_empty {first second : Index}
    (equal : ∀ kind, ∀ key : String, (first.entries kind)[key]? = (second.entries kind)[key]?)
    (exclude : String) :
    compare exclude first second = Kind.all.map fun kind => ⟨kind, [], [], []⟩ := by
  unfold compare
  refine List.map_congr_left ?_
  intro kind _
  have retained := retained_getElem?_eq (equal kind) exclude
  unfold ofKind
  dsimp only
  rw [missing_eq_nil retained, missing_eq_nil fun key => (retained key).symm,
    changes_eq_nil retained]

end Comparison

end AutoloadIndex
