import Mathlib.Data.List.Forall2
import AutoloadIndex.FileTree
import AutoloadIndex.Proofs.PathOrder

set_option autoImplicit false

/-!
The walk over a file tree. If it does not fail, it gives the files below the root and nothing else.
In a well-formed tree it gives every file once: no two of the paths it lists have the same
components. The order in which the tree lists its entries makes no difference. What is said of scans
rests on no more than that, so it holds for any other walk that keeps to it.
-/

namespace AutoloadIndex.FileTree

/-- An entry leads to its own place; a link leads where its path does. -/
def LeadsTo (tree : FileTree) (own : Place) (path : Path) (target : Place) : Prop :=
  match tree.entryAt own with
  | some (.link _) => tree.locate path = .ok target
  | some _ => target = own
  | none => False

/-- A file is found at a path that leads to the place, or below it if a directory is there. -/
inductive Holds (tree : FileTree) : Path → Place → Path → Prop
  | file {path : Path} {place : Place} : tree.isDirectory place = false → tree.Holds path place path
  | entry {path file : Path} {place target : Place} {name : String} :
      tree.isDirectory place = true → tree.LeadsTo (place ++ [name]) (path.join name) target →
      tree.Holds (path.join name) target file → tree.Holds path place file

def FileBelow (tree : FileTree) (root file : Path) : Prop :=
  ∃ place, tree.locate root = .ok place ∧ tree.Holds root place file

/-- What is known of a walk that does not fail: the root is there, each file below the root is
listed and nothing else, and no two paths in the list have the same components. -/
structure WalkedBy (tree : FileTree) (walk : Walk) : Prop where
  rooted : ∀ {root files}, walk root = .ok files → ∃ entry, tree.find root = .ok entry
  lists : ∀ {root files}, walk root = .ok files → ∀ path, path ∈ files ↔ tree.FileBelow root path
  apart : ∀ {root files}, walk root = .ok files →
    files.Pairwise fun first second => ¬ first.Same second

/-- Every place has one entry, and places are made of names that entries can have. -/
structure WellFormed (tree : FileTree) : Prop where
  distinct : (tree.entries.map Prod.fst).Nodup
  named : ∀ entry ∈ tree.entries, ∀ name ∈ entry.1, Path.IsEntryName name

def childOf (place other : Place) : Option String :=
  match other.getLast? with
  | some name => if other.dropLast = place then some name else none
  | none => none

theorem childOf_eq_some_iff (place other : Place) (name : String) :
    childOf place other = some name ↔ other = place ++ [name] := by
  unfold childOf
  constructor
  · intro found
    split at found
    case h_1 last lastEquality =>
        split at found
        case isTrue directory =>
            obtain ⟨front, equality⟩ := List.getLast?_eq_some_iff.mp lastEquality
            subst equality
            simpa [← Option.some.inj found] using directory
        case isFalse => exact absurd found (by simp)
    case h_2 => exact absurd found (by simp)
  · intro equality
    simp [equality]

theorem children_perm (tree : FileTree) (place : Place) :
    (tree.children place).Perm (tree.entries.filterMap fun entry => childOf place entry.1) :=
  List.mergeSort_perm _ _

theorem mem_children (tree : FileTree) (place : Place) (name : String) :
    name ∈ tree.children place ↔ ∃ entry, (place ++ [name], entry) ∈ tree.entries := by
  rw [(children_perm tree place).mem_iff, List.mem_filterMap]
  simp only [childOf_eq_some_iff]
  constructor
  · rintro ⟨⟨other, entry⟩, membership, equality⟩
    exact ⟨entry, equality ▸ membership⟩
  · rintro ⟨entry, membership⟩
    exact ⟨_, membership, rfl⟩

namespace WellFormed

variable {tree : FileTree} (wellFormed : tree.WellFormed)

include wellFormed

theorem isEntryName_of_mem_children {place : Place} {name : String}
    (membership : name ∈ tree.children place) : Path.IsEntryName name := by
  obtain ⟨entry, listed⟩ := (mem_children tree place name).mp membership
  exact wellFormed.named _ listed name (by simp)

theorem children_nodup (place : Place) : (tree.children place).Nodup := by
  rw [(children_perm tree place).nodup_iff]
  have places := wellFormed.distinct
  rw [List.nodup_iff_pairwise_ne, List.pairwise_map] at places
  rw [List.nodup_iff_pairwise_ne, List.pairwise_filterMap]
  refine places.imp ?_
  intro first second differ name isFirst other isSecond equality
  rw [childOf_eq_some_iff] at isFirst isSecond
  exact differ (by rw [isFirst, isSecond, equality])

end WellFormed

instance : LawfulBEq Place := inferInstanceAs (LawfulBEq (List String))

def entryFiles (tree : FileTree) (bound : Nat) (above : List Place) (path : Path) (place : Place)
    (name : String) : Except (Path × FileError) (List Path) :=
  match tree.entryAt (place ++ [name]) with
  | some (.file _) => .ok [path.join name]
  | some .directory => tree.filesBelow bound (place :: above) (path.join name) (place ++ [name])
  | some (.link _) =>
    match tree.locate (path.join name) with
    | .error e => .error (path.join name, e)
    | .ok target =>
      if !tree.isDirectory target then .ok [path.join name]
      else if target ∈ place :: above then .error (path.join name, .cycle)
      else tree.filesBelow bound (place :: above) (path.join name) target
  | none => .ok []

theorem filesBelow_succ (tree : FileTree) (bound : Nat) (above : List Place) (path : Path)
    (place : Place) :
    tree.filesBelow (bound + 1) above path place =
      ((tree.children place).mapM (tree.entryFiles bound above path place)).map List.flatten := by
  rw [filesBelow]
  rfl

theorem mapM_eq_ok {α β ε : Type} {f : α → Except ε β} {xs : List α} {ys : List β}
    (result : xs.mapM f = .ok ys) : List.Forall₂ (fun x y => f x = .ok y) xs ys := by
  induction xs generalizing ys with
  | nil =>
      rw [List.mapM_nil] at result
      cases result
      exact .nil
  | cons x rest inductionHypothesis =>
      rw [List.mapM_cons] at result
      cases first : f x with
      | error e => simp [first, bind, Except.bind] at result
      | ok y =>
          cases more : rest.mapM f with
          | error e => simp [first, more, bind, Except.bind] at result
          | ok found =>
              simp only [first, more, bind, Except.bind, pure, Except.pure, Except.ok.injEq]
                at result
              subst result
              exact .cons first (inductionHypothesis more)

theorem mem_flatten_of_forall₂ {α γ : Type} {holds : α → γ → Prop} {xs : List α}
    {lists : List (List γ)}
    (each : List.Forall₂ (fun x list => ∀ c, c ∈ list ↔ holds x c) xs lists) (c : γ) :
    c ∈ lists.flatten ↔ ∃ x ∈ xs, holds x c := by
  induction each with
  | nil => simp
  | cons first _ inductionHypothesis =>
      rw [List.flatten_cons, List.mem_append, first, inductionHypothesis]
      simp

section Files

variable {tree : FileTree}

theorem mem_children_of_leadsTo {place target : Place} {name : String} {path : Path}
    (leads : tree.LeadsTo (place ++ [name]) path target) : name ∈ tree.children place := by
  rw [mem_children]
  have present : ∃ entry, tree.entryAt (place ++ [name]) = some entry := by
    unfold LeadsTo at leads
    cases found : tree.entryAt (place ++ [name]) with
    | none => simp [found] at leads
    | some entry => exact ⟨entry, rfl⟩
  obtain ⟨entry, found⟩ := present
  have listed : (tree.entries.find? (·.1 = place ++ [name])).map (·.2) = some entry := by
    unfold entryAt at found
    split at found
    case h_1 root => simp at root
    case h_2 => exact found
  obtain ⟨⟨other, _⟩, first, rfl⟩ := Option.map_eq_some_iff.mp listed
  obtain rfl : other = place ++ [name] := by simpa using List.find?_some first
  exact ⟨_, List.mem_of_find?_eq_some first⟩

theorem holds_iff_of_isDirectory {path file : Path} {place : Place}
    (isDirectory : tree.isDirectory place = true) :
    tree.Holds path place file ↔ ∃ name ∈ tree.children place, ∃ target,
      tree.LeadsTo (place ++ [name]) (path.join name) target ∧
        tree.Holds (path.join name) target file := by
  constructor
  · intro holds
    cases holds with
    | file noDirectory => simp [isDirectory] at noDirectory
    | entry _ leads inside => exact ⟨_, mem_children_of_leadsTo leads, _, leads, inside⟩
  · rintro ⟨name, -, target, leads, inside⟩
    exact .entry isDirectory leads inside

theorem holds_iff_of_not_isDirectory {path file : Path} {place : Place}
    (noDirectory : tree.isDirectory place = false) : tree.Holds path place file ↔ file = path := by
  constructor
  · intro holds
    cases holds with
    | file => rfl
    | entry isDirectory => simp [noDirectory] at isDirectory
  · rintro rfl
    exact .file noDirectory

theorem mem_entryFiles_iff {bound : Nat} {above : List Place} {path : Path} {place : Place}
    {name : String} {files : List Path}
    (deeper : ∀ {above : List Place} {path : Path} {place : Place} {files : List Path},
      tree.isDirectory place = true → tree.filesBelow bound above path place = .ok files →
        ∀ file, file ∈ files ↔ tree.Holds path place file)
    (found : tree.entryFiles bound above path place name = .ok files) (file : Path) :
    file ∈ files ↔ ∃ target, tree.LeadsTo (place ++ [name]) (path.join name) target ∧
      tree.Holds (path.join name) target file := by
  unfold entryFiles at found
  unfold LeadsTo
  split at found
  case h_1 content isFile =>
      cases found
      have noDirectory : tree.isDirectory (place ++ [name]) = false := by simp [isDirectory, isFile]
      simp [isFile, holds_iff_of_not_isDirectory noDirectory]
  case h_2 isDirectory =>
      have isDirectory' : tree.isDirectory (place ++ [name]) = true := by
        simp [FileTree.isDirectory, isDirectory]
      simp [isDirectory, deeper isDirectory' found]
  case h_3 link isLink =>
      split at found
      case h_1 => exact absurd found (by simp)
      case h_2 target located =>
          simp only [isLink, located, Except.ok.injEq, exists_eq_left']
          split at found
          case isTrue noDirectory =>
              cases found
              rw [Bool.not_eq_true'] at noDirectory
              rw [holds_iff_of_not_isDirectory noDirectory, List.mem_singleton]
          case isFalse isDirectory =>
              split at found
              case isTrue => exact absurd found (by simp)
              case isFalse => exact deeper (by simpa using isDirectory) found file
  case h_4 absent =>
      cases found
      simp [absent]

/-- The walk below a directory lists the files that are there, however far down. -/
theorem mem_filesBelow_iff {bound : Nat} {above : List Place} {path : Path} {place : Place}
    {files : List Path} (isDirectory : tree.isDirectory place = true)
    (walked : tree.filesBelow bound above path place = .ok files) (file : Path) :
    file ∈ files ↔ tree.Holds path place file := by
  induction bound generalizing above path place files file with
  | zero => simp [filesBelow] at walked
  | succ bound inductionHypothesis =>
      rw [filesBelow_succ] at walked
      cases found : (tree.children place).mapM (tree.entryFiles bound above path place) with
      | error e => simp [found, Except.map] at walked
      | ok lists =>
          simp only [found, Except.map, Except.ok.injEq] at walked
          have each := (mapM_eq_ok found).imp fun name list listed =>
            mem_entryFiles_iff (fun isDirectory walked => inductionHypothesis isDirectory walked)
              listed
          rw [← walked, mem_flatten_of_forall₂ each, holds_iff_of_isDirectory isDirectory]

theorem mem_files_iff {root : Path} {files : List Path} (walked : tree.files root = .ok files)
    (file : Path) : file ∈ files ↔ tree.FileBelow root file := by
  unfold FileTree.files at walked
  unfold FileBelow
  split at walked
  case h_1 => exact absurd walked (by simp)
  case h_2 place located =>
      simp only [located, Except.ok.injEq, exists_eq_left']
      split at walked
      case h_1 => exact absurd walked (by simp)
      case h_2 isDirectory =>
          exact mem_filesBelow_iff (by simp [FileTree.isDirectory, isDirectory]) walked file
      case h_3 entry noDirectory isEntry =>
          cases walked
          have noDirectory : tree.isDirectory place = false := by
            rw [FileTree.isDirectory, isEntry, decide_eq_false_iff_not, Option.some.injEq]
            exact noDirectory
          rw [holds_iff_of_not_isDirectory noDirectory, List.mem_singleton]

theorem find_of_files {root : Path} {files : List Path} (walked : tree.files root = .ok files) :
    ∃ entry, tree.find root = .ok entry := by
  unfold FileTree.files at walked
  unfold find
  split at walked
  case h_1 => exact absurd walked (by simp)
  case h_2 place located =>
      rw [located]
      cases found : tree.entryAt place with
      | none => simp [found] at walked
      | some entry => exact ⟨entry, by simp [found, bind, Except.bind]⟩

end Files

def ExtendedBy (directory : Path) (names : List String) (path : Path) : Prop :=
  path.components = directory.components ++ names.map Path.Component.normal

theorem ExtendedBy.of_join {directory path : Path} {name : String} {names : List String}
    (isName : Path.IsEntryName name) (extended : ExtendedBy (directory.join name) names path) :
    ExtendedBy directory (name :: names) path := by
  unfold ExtendedBy at *
  rw [extended, Path.components_join directory isName]
  simp

theorem ExtendedBy.not_same {directory first second : Path} {name other : String}
    {names others : List String} (isFirst : ExtendedBy directory (name :: names) first)
    (isSecond : ExtendedBy directory (other :: others) second) (differ : name ≠ other) :
    ¬ first.Same second := by
  intro same
  unfold Path.Same at same
  rw [isFirst, isSecond, List.append_cancel_left_eq] at same
  simp only [List.map_cons, List.cons.injEq, Path.Component.normal.injEq] at same
  exact differ same.1

/-- What the walk says of the files below a directory: they are below it, and no two are one. -/
structure Listed (directory : Path) (files : List Path) : Prop where
  below : ∀ file ∈ files, ∃ names, ExtendedBy directory names file
  apart : files.Pairwise fun first second => ¬ first.Same second

theorem listed_single (path : Path) : Listed path [path] where
  below := by
    intro file membership
    rw [List.mem_singleton] at membership
    exact ⟨[], by simp [ExtendedBy, membership]⟩
  apart := List.pairwise_singleton _ _

theorem listed_nil (path : Path) : Listed path [] where
  below := by simp
  apart := .nil

theorem listed_flatten {directory : Path} {names : List String} {found : List (List Path)}
    (isName : ∀ name ∈ names, Path.IsEntryName name) (nodup : names.Nodup)
    (each : List.Forall₂ (fun name files => Listed (directory.join name) files) names found) :
    (∀ file ∈ found.flatten, ∃ name ∈ names, ∃ more, ExtendedBy directory (name :: more) file) ∧
      found.flatten.Pairwise fun first second => ¬ first.Same second := by
  induction each with
  | nil => simp
  | @cons name files names found listed each inductionHypothesis =>
      rw [List.nodup_cons] at nodup
      obtain ⟨later, apart⟩ := inductionHypothesis
        (fun other membership => isName other (List.mem_cons_of_mem name membership)) nodup.2
      have here : ∀ file ∈ files, ∃ more, ExtendedBy directory (name :: more) file := by
        intro file membership
        obtain ⟨more, extended⟩ := listed.below file membership
        exact ⟨more, extended.of_join (isName name (by simp))⟩
      rw [List.flatten_cons]
      constructor
      · intro file membership
        rcases List.mem_append.mp membership with inFiles | inRest
        · obtain ⟨more, extended⟩ := here file inFiles
          exact ⟨name, by simp, more, extended⟩
        · obtain ⟨other, inNames, more, extended⟩ := later file inRest
          exact ⟨other, by simp [inNames], more, extended⟩
      · rw [List.pairwise_append]
        refine ⟨listed.apart, apart, ?_⟩
        intro first inFiles second inRest
        obtain ⟨more, isFirst⟩ := here first inFiles
        obtain ⟨other, inNames, others, isSecond⟩ := later second inRest
        exact isFirst.not_same isSecond (fun equality => nodup.1 (equality ▸ inNames))

theorem listed_of_entryFiles {tree : FileTree} {bound : Nat} {above : List Place} {path : Path}
    {place : Place} {name : String} {files : List Path}
    (deeper : ∀ {above : List Place} {path : Path} {place : Place} {files : List Path},
      tree.filesBelow bound above path place = .ok files → Listed path files)
    (found : tree.entryFiles bound above path place name = .ok files) :
    Listed (path.join name) files := by
  unfold entryFiles at found
  split at found
  case h_1 => cases found; exact listed_single _
  case h_2 => exact deeper found
  case h_3 =>
      split at found
      case h_1 => exact absurd found (by simp)
      case h_2 =>
          split at found
          case isTrue => cases found; exact listed_single _
          case isFalse =>
              split at found
              case isTrue => exact absurd found (by simp)
              case isFalse => exact deeper found
  case h_4 => cases found; exact listed_nil _

namespace WellFormed

variable {tree : FileTree} (wellFormed : tree.WellFormed)

include wellFormed

theorem listed_of_filesBelow {bound : Nat} {above : List Place} {path : Path} {place : Place}
    {files : List Path} (walked : tree.filesBelow bound above path place = .ok files) :
    Listed path files := by
  induction bound generalizing above path place files with
  | zero => simp [filesBelow] at walked
  | succ bound inductionHypothesis =>
      rw [filesBelow_succ] at walked
      cases found : (tree.children place).mapM (tree.entryFiles bound above path place) with
      | error e => simp [found, Except.map] at walked
      | ok lists =>
          simp only [found, Except.map, Except.ok.injEq] at walked
          have each := (mapM_eq_ok found).imp fun name list listed =>
            listed_of_entryFiles (fun walked => inductionHypothesis walked) listed
          have flattened := listed_flatten
            (fun name membership => wellFormed.isEntryName_of_mem_children membership)
            (wellFormed.children_nodup place) each
          rw [walked] at flattened
          refine ⟨?_, flattened.2⟩
          intro file membership
          obtain ⟨name, inNames, more, extended⟩ := flattened.1 file membership
          exact ⟨name :: more, extended⟩

/-- The walk lists no file twice. -/
theorem files_pairwise_not_same {root : Path} {files : List Path}
    (walked : tree.files root = .ok files) :
    files.Pairwise fun first second => ¬ first.Same second := by
  unfold FileTree.files at walked
  split at walked
  case h_1 => exact absurd walked (by simp)
  case h_2 =>
      split at walked
      case h_1 => exact absurd walked (by simp)
      case h_2 => exact (wellFormed.listed_of_filesBelow walked).apart
      case h_3 => cases walked; exact List.pairwise_singleton _ _

theorem walkedBy_files : tree.WalkedBy tree.files where
  rooted := find_of_files
  lists := mem_files_iff
  apart := wellFormed.files_pairwise_not_same

end WellFormed

theorem find?_place_eq_some_iff {entries : List (Place × Entry)}
    (unique : (entries.map Prod.fst).Nodup) (place : Place) (entry : Entry) :
    (entries.find? (·.1 = place)).map (·.2) = some entry ↔ (place, entry) ∈ entries := by
  induction entries with
  | nil => simp
  | cons head rest inductionHypothesis =>
      obtain ⟨other, found⟩ := head
      rw [List.map_cons, List.nodup_cons] at unique
      by_cases here : other = place
      · subst here
        simp only [List.find?_cons, decide_true, Option.map_some, Option.some.injEq,
          List.mem_cons, Prod.mk.injEq, true_and]
        constructor
        · intro equality
          exact .inl equality.symm
        · rintro (equality | later)
          · exact equality.symm
          · exact absurd (List.mem_map_of_mem later) unique.1
      · simp [here, inductionHypothesis unique.2, Ne.symm here]

/-- Two trees that list the same entries, each in an order of its own. -/
structure SameEntries (tree other : FileTree) : Prop where
  entries : tree.entries.Perm other.entries
  workingDirectory : tree.workingDirectory = other.workingDirectory

namespace SameEntries

variable {tree other : FileTree} (same : tree.SameEntries other) (wellFormed : tree.WellFormed)

include same wellFormed

theorem entryAt_eq (place : Place) : tree.entryAt place = other.entryAt place := by
  have otherDistinct : (other.entries.map Prod.fst).Nodup :=
    (same.entries.map Prod.fst).nodup_iff.mp wellFormed.distinct
  cases place with
  | nil => rfl
  | cons name rest =>
      apply Option.ext
      intro entry
      unfold entryAt
      rw [find?_place_eq_some_iff wellFormed.distinct, find?_place_eq_some_iff otherDistinct]
      exact same.entries.mem_iff

omit wellFormed in
theorem children_eq (place : Place) : tree.children place = other.children place := by
  have names : (tree.children place).Perm (other.children place) :=
    (children_perm tree place).trans
      ((same.entries.filterMap _).trans (children_perm other place).symm)
  have sorted : ∀ tree : FileTree, (tree.children place).Pairwise (· ≤ ·) := by
    intro tree
    have ordered : (tree.children place).Pairwise fun first second =>
        decide (first ≤ second) = true :=
      List.pairwise_mergeSort (by simpa using fun _ _ _ => String.le_trans)
        (by simpa using String.le_total) _
    simpa using ordered
  apply names.eq_of_pairwise ?_ (sorted tree) (sorted other)
  intro first second _ _ front back
  exact String.le_antisymm front back

theorem isDirectory_eq (place : Place) : tree.isDirectory place = other.isDirectory place := by
  unfold isDirectory
  rw [same.entryAt_eq wellFormed]

theorem follow_eq (making : Bool) (links : Nat) (place : Place) (names : List String) :
    tree.follow making links place names = other.follow making links place names := by
  have directory := same.isDirectory_eq wellFormed
  have entry := same.entryAt_eq wellFormed
  fun_induction tree.follow making links place names <;> rw [follow] <;> grind

theorem locate_eq (path : Path) : tree.locate path = other.locate path := by
  unfold locate resolve start
  rw [same.follow_eq wellFormed, same.workingDirectory]

theorem read_eq : tree.read = other.read := by
  funext path
  unfold read find
  simp only [same.locate_eq wellFormed, same.entryAt_eq wellFormed]

theorem filesBelow_eq (bound : Nat) (above : List Place) (path : Path) (place : Place) :
    tree.filesBelow bound above path place = other.filesBelow bound above path place := by
  induction bound generalizing above path place with
  | zero => rfl
  | succ bound inductionHypothesis =>
      have entry : tree.entryFiles bound above path place =
          other.entryFiles bound above path place := by
        funext name
        unfold entryFiles
        simp only [same.entryAt_eq wellFormed, same.locate_eq wellFormed,
          same.isDirectory_eq wellFormed, inductionHypothesis]
      rw [filesBelow_succ, filesBelow_succ, same.children_eq, entry]

theorem files_eq (root : Path) : tree.files root = other.files root := by
  have bound : tree.depthBound = other.depthBound := by
    unfold depthBound
    rw [same.entries.length_eq]
  unfold files
  simp only [same.locate_eq wellFormed, same.entryAt_eq wellFormed, bound,
    same.filesBelow_eq wellFormed]

theorem leadsTo_iff (own : Place) (path : Path) (target : Place) :
    tree.LeadsTo own path target ↔ other.LeadsTo own path target := by
  unfold LeadsTo
  rw [same.entryAt_eq wellFormed, same.locate_eq wellFormed]

theorem holds_iff (path : Path) (place : Place) (file : Path) :
    tree.Holds path place file ↔ other.Holds path place file := by
  have directory := same.isDirectory_eq wellFormed
  constructor
  · intro holds
    induction holds with
    | file noDirectory => exact .file (directory _ ▸ noDirectory)
    | entry isDirectory leads _ inside =>
        exact .entry (directory _ ▸ isDirectory) ((same.leadsTo_iff wellFormed ..).mp leads) inside
  · intro holds
    induction holds with
    | file noDirectory => exact .file (directory _ ▸ noDirectory)
    | entry isDirectory leads _ inside =>
        exact .entry (directory _ ▸ isDirectory) ((same.leadsTo_iff wellFormed ..).mpr leads) inside

theorem fileBelow_iff (root file : Path) :
    tree.FileBelow root file ↔ other.FileBelow root file := by
  unfold FileBelow
  simp only [same.locate_eq wellFormed, same.holds_iff wellFormed]

end SameEntries

end AutoloadIndex.FileTree
