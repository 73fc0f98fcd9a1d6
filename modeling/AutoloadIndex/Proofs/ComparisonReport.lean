import Mathlib.Data.List.Forall2
import Mathlib.Data.List.Sort
import AutoloadIndex.Proofs.IndexEquality
import AutoloadIndex.Scan.Run

set_option autoImplicit false

/-!
What a comparison tells about two indexes. Its lists are described by membership in the parts of the
indexes that are compared, and since they ascend, the description leaves no choice. So every key of
the parts has exactly one finding, a report is consistent exactly if the parts are the same, and
exchanging the indexes exchanges the two sides of every list.
-/

namespace AutoloadIndex

def ChangedPath.swap (change : ChangedPath) : ChangedPath :=
  ⟨change.name, change.second, change.first⟩

namespace KindDiff

def swap (diff : KindDiff) : KindDiff :=
  ⟨diff.kind, diff.onlyInSecond, diff.onlyInFirst, diff.changed.map ChangedPath.swap⟩

/-- The differences of two tables: the keys that only one of them has and the keys that they store
for different places, each list in strictly ascending order. -/
structure Describes (diff : KindDiff) (kind : Kind) (first second : Table) : Prop where
  kind_eq : diff.kind = kind
  first_ascends : diff.onlyInFirst.Pairwise (· < ·)
  mem_first : ∀ key, key ∈ diff.onlyInFirst ↔ key ∈ first ∧ key ∉ second
  second_ascends : diff.onlyInSecond.Pairwise (· < ·)
  mem_second : ∀ key, key ∈ diff.onlyInSecond ↔ key ∈ second ∧ key ∉ first
  changed_ascends : diff.changed.Pairwise (·.name < ·.name)
  mem_changed : ∀ change, change ∈ diff.changed ↔
    first[change.name]? = some change.first ∧ second[change.name]? = some change.second ∧
      ¬ change.first.Same change.second

inductive Finding where
  | onlyInFirst
  | onlyInSecond
  | changed
  | equal
deriving DecidableEq, Repr

def Finding.of? : Option Path → Option Path → Option Finding
  | some path, some other => if path.Same other then some equal else some changed
  | some _, none => some onlyInFirst
  | none, some _ => some onlyInSecond
  | none, none => none

theorem Finding.of?_isSome (path other : Option Path) :
    (Finding.of? path other).isSome = true ↔ path.isSome = true ∨ other.isSome = true := by
  cases path <;> cases other <;> simp [of?, apply_ite]

/-- The files under a key are level exactly if none of the differences is found. -/
theorem Finding.of?_level (path other : Option Path) :
    path.map Path.components = other.map Path.components ↔
      ¬ Finding.of? path other = some .onlyInFirst ∧
        ¬ Finding.of? path other = some .onlyInSecond ∧
        ¬ Finding.of? path other = some .changed := by
  cases path <;> cases other <;> grind [Finding.of?, Path.Same]

def Finds (diff : KindDiff) (first second : Table) (key : String) : Finding → Prop
  | .onlyInFirst => key ∈ diff.onlyInFirst
  | .onlyInSecond => key ∈ diff.onlyInSecond
  | .changed => ∃ change ∈ diff.changed, change.name = key
  | .equal => ∃ path other, first[key]? = some path ∧ second[key]? = some other ∧ path.Same other

theorem size_eq_zero_iff (diff : KindDiff) : diff.size = 0 ↔ diff.isEmpty = true := by
  simp [size, isEmpty, and_assoc]

namespace Describes

variable {diff other : KindDiff} {kind : Kind} {first second : Table}

theorem swap (describes : diff.Describes kind first second) :
    diff.swap.Describes kind second first where
  kind_eq := describes.kind_eq
  first_ascends := describes.second_ascends
  mem_first := describes.mem_second
  second_ascends := describes.first_ascends
  mem_second := describes.mem_first
  changed_ascends := List.pairwise_map.mpr describes.changed_ascends
  mem_changed := by
    intro change
    have turned : change ∈ diff.swap.changed ↔ change.swap ∈ diff.changed := by
      constructor
      · intro membership
        obtain ⟨original, isOriginal, rfl⟩ := List.mem_map.mp membership
        exact isOriginal
      · intro membership
        exact List.mem_map.mpr ⟨change.swap, membership, rfl⟩
    rw [turned, describes.mem_changed]
    constructor
    · rintro ⟨inFirst, inSecond, differ⟩
      exact ⟨inSecond, inFirst, fun same => differ (Eq.symm same)⟩
    · rintro ⟨inSecond, inFirst, differ⟩
      exact ⟨inFirst, inSecond, fun same => differ (Eq.symm same)⟩

theorem unique (describes : diff.Describes kind first second)
    (also : other.Describes kind first second) : diff = other := by
  have onlyInFirst : diff.onlyInFirst = other.onlyInFirst :=
    describes.first_ascends.eq_of_mem_iff also.first_ascends fun key =>
      (describes.mem_first key).trans (also.mem_first key).symm
  have onlyInSecond : diff.onlyInSecond = other.onlyInSecond :=
    describes.second_ascends.eq_of_mem_iff also.second_ascends fun key =>
      (describes.mem_second key).trans (also.mem_second key).symm
  have changed : diff.changed = other.changed := by
    let before : ChangedPath → ChangedPath → Prop := (·.name < ·.name)
    have : Std.Irrefl before := ⟨fun change => String.lt_irrefl change.name⟩
    have : Std.Antisymm before :=
      ⟨fun _ _ less greater => absurd greater (String.lt_asymm less)⟩
    exact List.Pairwise.eq_of_mem_iff (r := before) describes.changed_ascends also.changed_ascends
      fun change => (describes.mem_changed change).trans (also.mem_changed change).symm
  have kinds : diff.kind = other.kind := describes.kind_eq.trans also.kind_eq.symm
  cases diff
  cases other
  simp_all

theorem finds_iff (describes : diff.Describes kind first second) (key : String)
    (finding : Finding) :
    diff.Finds first second key finding ↔ Finding.of? first[key]? second[key]? = some finding := by
  have onlyInFirst := describes.mem_first key
  have onlyInSecond := describes.mem_second key
  rw [Std.TreeMap.mem_iff_isSome_getElem?, Std.TreeMap.mem_iff_isSome_getElem?]
    at onlyInFirst onlyInSecond
  have changed : (∃ change ∈ diff.changed, change.name = key) ↔
      ∃ path other, first[key]? = some path ∧ second[key]? = some other ∧ ¬ path.Same other := by
    constructor
    · rintro ⟨change, membership, rfl⟩
      exact ⟨change.first, change.second, (describes.mem_changed change).mp membership⟩
    · rintro ⟨path, other, found⟩
      exact ⟨⟨key, path, other⟩, (describes.mem_changed _).mpr found, rfl⟩
  cases finding with
  | onlyInFirst =>
      rw [Finds, onlyInFirst]
      grind [Finding.of?]
  | onlyInSecond =>
      rw [Finds, onlyInSecond]
      grind [Finding.of?]
  | changed =>
      rw [Finds, changed]
      grind [Finding.of?]
  | equal =>
      rw [Finds]
      grind [Finding.of?]

theorem existsUnique_finding (describes : diff.Describes kind first second) (key : String) :
    key ∈ first ∨ key ∈ second ↔ ∃! finding, diff.Finds first second key finding := by
  simp only [describes.finds_iff, Std.TreeMap.mem_iff_isSome_getElem?]
  rw [← Finding.of?_isSome, Option.isSome_iff_exists]
  constructor
  · rintro ⟨finding, found⟩
    exact ⟨finding, found, fun other isOther => Option.some.inj (isOther.symm.trans found)⟩
  · rintro ⟨finding, found, -⟩
    exact ⟨finding, found⟩

theorem isEmpty_iff (describes : diff.Describes kind first second) :
    diff.isEmpty = true ↔ Index.sameTable first second = true := by
  have unchanged : (∀ key, ¬ ∃ change ∈ diff.changed, change.name = key) ↔
      ∀ change, change ∉ diff.changed := by
    constructor
    · intro none change membership
      exact none change.name ⟨change, membership, rfl⟩
    · rintro none key ⟨change, membership, -⟩
      exact none change membership
  simp only [Index.sameTable_iff, Finding.of?_level, ← describes.finds_iff, Finds, forall_and,
    unchanged, isEmpty, Bool.and_eq_true, List.isEmpty_iff, List.eq_nil_iff_forall_not_mem,
    and_assoc]

end Describes

end KindDiff

namespace Comparison

theorem occursIn_iff (part whole : List Char) : occursIn part whole = true ↔ part <:+: whole := by
  induction whole with
  | nil => rw [occursIn, List.isEmpty_iff, List.infix_nil]
  | cons c rest inductionHypothesis =>
      rw [occursIn, Bool.or_eq_true, List.isPrefixOf_iff_prefix, inductionHypothesis,
        List.infix_cons_iff]

/-- An entry takes part exactly if its path, as it is spelled, does not contain the text. An empty
text excludes nothing, although it is contained in every path. -/
theorem keeps_iff (exclude : String) (path : Path) :
    keeps exclude path = true ↔
      exclude = "" ∨ ¬ exclude.toList <:+: path.spelling.toList := by
  unfold keeps
  rw [Bool.or_eq_true, String.isEmpty_iff, Bool.not_eq_true', ← Bool.not_eq_true, occursIn_iff]

def part (exclude : String) (index : Index) : Index :=
  ⟨retained exclude index.classes, retained exclude index.functions,
    retained exclude index.types, retained exclude index.constants⟩

@[simp] theorem entries_part (exclude : String) (index : Index) (kind : Kind) :
    (part exclude index).entries kind = retained exclude (index.entries kind) := by
  cases kind <;> rfl

theorem getElem?_part (exclude : String) (index : Index) (kind : Kind) (key : String)
    (path : Path) :
    ((part exclude index).entries kind)[key]? = some path ↔
      (index.entries kind)[key]? = some path ∧
        (exclude = "" ∨ ¬ exclude.toList <:+: path.spelling.toList) := by
  rw [entries_part, retained, Std.TreeMap.getElem?_filter, Option.pfilter_eq_filter, ← keeps_iff,
    Option.filter_eq_some_iff]

theorem lt_of_compare {first second : String} (less : Ord.compare first second = .lt) :
    first < second :=
  compareOfLessAndEq_eq_lt.mp less

theorem missing_ascends (first second : Table) : (missing first second).Pairwise (· < ·) := by
  have ascends : first.keys.Pairwise (· < ·) := Std.TreeMap.ordered_keys.imp lt_of_compare
  exact ascends.filter _

theorem changes_ascends (first second : Table) :
    (changes first second).Pairwise (·.name < ·.name) := by
  refine List.pairwise_filterMap.mpr (Std.TreeMap.ordered_keys_toList.imp ?_)
  intro entry next less change isChange later isLater
  -- A change bears the key of the entry that it comes from.
  have here : change.name = entry.1 := by grind
  have there : later.name = next.1 := by grind
  rw [here, there]
  exact lt_of_compare less

theorem describes_ofKind (exclude : String) (first second : Index) (kind : Kind) :
    (ofKind exclude first second kind).Describes kind ((part exclude first).entries kind)
      ((part exclude second).entries kind) := by
  rw [entries_part, entries_part]
  exact {
    kind_eq := rfl
    first_ascends := missing_ascends _ _
    mem_first := fun _ => mem_missing
    second_ascends := missing_ascends _ _
    mem_second := fun _ => mem_missing
    changed_ascends := changes_ascends _ _
    mem_changed := fun _ => mem_changes }

theorem compare_swap (exclude : String) (first second : Index) :
    compare exclude second first = (compare exclude first second).map KindDiff.swap := by
  unfold compare
  rw [List.map_map]
  refine List.map_congr_left ?_
  intro kind _
  exact (describes_ofKind exclude second first kind).unique
    (describes_ofKind exclude first second kind).swap

theorem compare_isEmpty_iff (exclude : String) (first second : Index) :
    (compare exclude first second).all KindDiff.isEmpty = true ↔
      (part exclude first).same (part exclude second) = true := by
  unfold compare Index.same
  rw [List.all_map, List.all_eq_true, List.all_eq_true]
  refine forall₂_congr ?_
  intro kind _
  exact (describes_ofKind exclude first second kind).isEmpty_iff

end Comparison

namespace Report

theorem differences_eq_zero_iff (report : Report) :
    report.differences = 0 ↔ report.isConsistent = true := by
  have counted : ∀ (kinds : List KindDiff) (total : Nat),
      kinds.foldl (fun total diff => total + diff.size) total = 0 ↔
        total = 0 ∧ kinds.all KindDiff.isEmpty = true := by
    intro kinds
    induction kinds with
    | nil => simp
    | cons diff rest inductionHypothesis =>
        intro total
        rw [List.foldl_cons, inductionHypothesis, Nat.add_eq_zero_iff, diff.size_eq_zero_iff,
          List.all_cons, Bool.and_eq_true, and_assoc]
  exact (counted report.kinds 0).trans (and_iff_right rfl)

theorem requireConsistent_eq_ok_iff (report : Report) :
    Scan.requireConsistent report = .ok report ↔ report.isConsistent = true := by
  unfold Scan.requireConsistent
  cases report.isConsistent <;> simp

end Report

namespace Comparison

/-- A comparison has one entry for each kind, in the order of the kinds. It describes the parts of
the indexes whose paths do not contain the text, and finds exactly one thing about every key of
these parts. The report passes, with no difference counted, exactly if the parts are the same.
Exchanging the indexes exchanges the two sides. -/
theorem compare_describes (exclude : String) (first second : Index) :
    (∀ (index : Index) (kind : Kind) (key : String) (path : Path),
      ((part exclude index).entries kind)[key]? = some path ↔
        (index.entries kind)[key]? = some path ∧
          (exclude = "" ∨ ¬ exclude.toList <:+: path.spelling.toList)) ∧
    List.Forall₂ (fun kind (diff : KindDiff) =>
      diff.Describes kind ((part exclude first).entries kind)
        ((part exclude second).entries kind) ∧
      ∀ key, key ∈ (part exclude first).entries kind ∨ key ∈ (part exclude second).entries kind ↔
        ∃! finding, diff.Finds ((part exclude first).entries kind)
          ((part exclude second).entries kind) key finding)
      Kind.all (compare exclude first second) ∧
    (∀ (root : Path) (family other : Family),
      let report : Report := ⟨root, family, other, exclude, compare exclude first second⟩
      (Scan.requireConsistent report = .ok report ↔
        (part exclude first).same (part exclude second) = true) ∧
      (report.differences = 0 ↔ (part exclude first).same (part exclude second) = true)) ∧
    compare exclude second first = (compare exclude first second).map KindDiff.swap := by
  refine ⟨getElem?_part exclude, ?_, ?_, compare_swap exclude first second⟩
  · rw [compare, List.forall₂_map_right_iff, List.forall₂_same]
    intro kind _
    have describes := describes_ofKind exclude first second kind
    exact ⟨describes, describes.existsUnique_finding⟩
  · intro root family other report
    have consistent : report.isConsistent = true ↔
        (part exclude first).same (part exclude second) = true :=
      compare_isEmpty_iff exclude first second
    exact ⟨report.requireConsistent_eq_ok_iff.trans consistent,
      report.differences_eq_zero_iff.trans consistent⟩

-- The class is left out on the first side only, so that the second side has it alone.
example :
    compare "vendor" (Index.insert {} .classLike "A" ⟨"vendor/a.php"⟩)
      (Index.insert {} .classLike "a" ⟨"src/a.php"⟩) =
        [⟨.classLike, [], ["a"], []⟩, ⟨.function, [], [], []⟩, ⟨.typeAlias, [], [], []⟩,
          ⟨.constant, [], [], []⟩] := by
  decide +kernel

end Comparison

end AutoloadIndex
