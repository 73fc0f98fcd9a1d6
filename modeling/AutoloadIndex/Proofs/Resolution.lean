import Mathlib
import AutoloadIndex.Proofs.Additions

set_option autoImplicit false

/-!
Resolving a name under a scope. The candidates of a look-up come from two keys: that of the
qualified name, first in lower case and then as it is, and that of the bare name. They are keys
themselves, each of them once. Keys of classes are in lower case already, so a class is looked up
under its qualified name and then under its bare name, however the two are spelled. For the other
kinds an entry under the key in lower case hides the one that the name spells.
-/

namespace AutoloadIndex

namespace Text

theorem toLower_eq_backslash_iff (c : Char) : c.toLower = '\\' ↔ c = '\\' := by
  by_cases upper : c.isUpper
  · have isAlpha : c.toLower.isAlpha = true := by
      rw [Char.isAlpha_toLower_eq_isAlpha, Char.isAlpha, upper, Bool.true_or]
    refine iff_of_false ?_ ?_
    · intro isMark
      rw [isMark] at isAlpha
      cases isAlpha
    · rintro rfl
      cases upper
  · rw [Char.toLower_eq_of_not_isUpper upper]

theorem lowerAscii_trimStart (cs : List Char) :
    lowerAscii (trimStart '\\' cs) = trimStart '\\' (lowerAscii cs) := by
  have sameMark : ((· == '\\') ∘ Char.toLower) = (· == '\\') := by
    funext c
    rw [Function.comp_apply, Bool.eq_iff_iff, beq_iff_eq, beq_iff_eq, toLower_eq_backslash_iff]
  rw [lowerAscii, lowerAscii, trimStart, trimStart, List.dropWhile_map, sameMark]

theorem lowerAscii_trimEnd (cs : List Char) :
    lowerAscii (trimEnd '\\' cs) = trimEnd '\\' (lowerAscii cs) := by
  have reversed := lowerAscii_trimStart cs.reverse
  simp only [trimStart, lowerAscii, List.map_reverse] at reversed
  rw [trimEnd, lowerAscii, List.map_reverse, reversed]
  rfl

theorem lowerAscii_lowerAscii (cs : List Char) : lowerAscii (lowerAscii cs) = lowerAscii cs := by
  simp [lowerAscii]

theorem lowerAscii_append (first second : List Char) :
    lowerAscii (first ++ second) = lowerAscii first ++ lowerAscii second := List.map_append

theorem trimStart_trimStart (mark : Char) (cs : List Char) :
    trimStart mark (trimStart mark cs) = trimStart mark cs := List.dropWhile_idempotent _ cs

end Text

namespace Name

theorem relative_join_empty (name : String) : relative (join "" name) = relative name := by
  simp [relative, join, separator, Text.trimStart]

theorem lowerAscii_relative (name : String) :
    lowerAscii (relative name) = relative (lowerAscii name) := by
  simp only [lowerAscii, relative, separator, String.toList_ofList, Text.lowerAscii_trimStart]

theorem lowerAscii_bare (scope : String) : lowerAscii (bare scope) = bare (lowerAscii scope) := by
  simp only [lowerAscii, bare, separator, Text.trim, String.toList_ofList, Text.lowerAscii_trimEnd,
    Text.lowerAscii_trimStart]

theorem lowerAscii_lowerAscii (name : String) : lowerAscii (lowerAscii name) = lowerAscii name := by
  simp only [lowerAscii, String.toList_ofList, Text.lowerAscii_lowerAscii]

theorem lowerAscii_eq_empty_iff {name : String} : lowerAscii name = "" ↔ name = "" := by
  simp [lowerAscii, Text.lowerAscii]

theorem lowerAscii_join (scope name : String) :
    lowerAscii (join scope name) = join (lowerAscii scope) (lowerAscii name) := by
  refine String.toList_injective ?_
  simp only [lowerAscii, join, String.toList_append, String.toList_ofList, Text.lowerAscii_append]
  rfl

theorem relative_relative (name : String) : relative (relative name) = relative name := by
  simp only [relative, String.toList_ofList, Text.trimStart_trimStart]

theorem qualify_relative (scope : Option String) (name : String) :
    qualify scope (relative name) = qualify scope name := by
  simp only [qualify, relative_relative]

theorem lowerAscii_qualify (scope : Option String) (name : String) :
    lowerAscii (qualify scope name) = qualify (scope.map lowerAscii) (lowerAscii name) := by
  cases scope with
  | none => exact lowerAscii_relative name
  | some scope =>
      simp only [qualify, Option.map_some, ← lowerAscii_bare, String.isEmpty_iff,
        lowerAscii_eq_empty_iff]
      split
      · exact lowerAscii_relative name
      · rw [lowerAscii_join, lowerAscii_relative]

theorem key_of_relative {kind : Kind} {name other : String} (same : relative name = relative other) :
    key kind name = key kind other := by
  rw [key, key, same]

theorem key_lowerAscii (kind : Kind) (name : String) :
    key kind (lowerAscii name) = lowerAscii (key kind name) := by
  unfold key
  rw [← lowerAscii_relative]
  split
  · rfl
  · rfl

theorem key_key (kind : Kind) (name : String) : key kind (key kind name) = key kind name := by
  unfold key
  split
  · rw [← lowerAscii_relative, relative_relative, lowerAscii_lowerAscii]
  · exact relative_relative name

theorem key_qualify_of_lowerAscii {scope other : Option String} {name asked : String}
    (sameScope : scope.map lowerAscii = other.map lowerAscii)
    (sameName : lowerAscii (relative name) = lowerAscii (relative asked)) :
    key .classLike (qualify scope name) = key .classLike (qualify other asked) := by
  have same : lowerAscii (qualify scope name) = lowerAscii (qualify other asked) := by
    rw [← qualify_relative scope, ← qualify_relative other, lowerAscii_qualify, lowerAscii_qualify,
      sameScope, sameName]
  calc key .classLike (qualify scope name)
      = lowerAscii (relative (qualify scope name)) := rfl
    _ = relative (lowerAscii (qualify scope name)) := lowerAscii_relative _
    _ = relative (lowerAscii (qualify other asked)) := by rw [same]
    _ = lowerAscii (relative (qualify other asked)) := (lowerAscii_relative _).symm
    _ = key .classLike (qualify other asked) := rfl

theorem lowerAscii_key {kind : Kind} (folds : kind.foldsCase = true) (name : String) :
    lowerAscii (key kind name) = key kind name := by
  rw [key, if_pos folds, lowerAscii_lowerAscii]

/-- A scope of separators only counts for the spelling, but not for the key. -/
theorem key_underScope (kind : Kind) (scope : Option String) (name : String) :
    key kind (underScope scope name) = key kind (qualify scope name) := by
  refine key_of_relative ?_
  cases scope with
  | none => rfl
  | some scope =>
      simp only [underScope, qualify, Option.map_some]
      by_cases empty : scope = ""
      · subst empty
        rfl
      · have written : scope.isEmpty = false := by simpa using empty
        rw [written]
        by_cases bareEmpty : bare scope = ""
        · rw [bareEmpty]
          exact relative_join_empty _
        · have bareWritten : (bare scope).isEmpty = false := by simpa using bareEmpty
          rw [bareWritten]

theorem mem_addNew {found : List String} {key candidate : String} :
    candidate ∈ addNew found key ↔ candidate ∈ found ∨ candidate = key := by
  unfold addNew
  split
  case isTrue present =>
      refine ⟨.inl, ?_⟩
      rintro (membership | rfl)
      · exact membership
      · exact present
  case isFalse => rw [List.mem_append, List.mem_singleton]

theorem nodup_addNew {found : List String} (distinct : found.Nodup) (key : String) :
    (addNew found key).Nodup := by
  unfold addNew
  split
  case isTrue => exact distinct
  case isFalse absent =>
      rw [← List.concat_eq_append]
      exact distinct.concat absent

theorem mem_foldl_addNew {keys found : List String} {candidate : String} :
    candidate ∈ keys.foldl addNew found ↔ candidate ∈ found ∨ candidate ∈ keys := by
  induction keys generalizing found with
  | nil => simp
  | cons key rest inductionHypothesis =>
      rw [List.foldl_cons, inductionHypothesis, mem_addNew, List.mem_cons, or_assoc]

theorem nodup_foldl_addNew (keys : List String) {found : List String} (distinct : found.Nodup) :
    (keys.foldl addNew found).Nodup := by
  induction keys generalizing found with
  | nil => exact distinct
  | cons key rest inductionHypothesis => exact inductionHypothesis (nodup_addNew distinct key)

theorem nodup_candidates (kind : Kind) (scope : Option String) (name : String) :
    (candidates kind scope name).Nodup := nodup_foldl_addNew _ List.nodup_nil

theorem key_candidate {kind : Kind} {scope : Option String} {name candidate : String}
    (membership : candidate ∈ candidates kind scope name) : key kind candidate = candidate := by
  rcases mem_foldl_addNew.mp membership with impossible | isKey
  · cases impossible
  · obtain ⟨spelling, -, rfl⟩ := List.mem_map.mp isKey
    exact key_key kind spelling

theorem findSome?_addNew (f : String → Option Path) (found : List String) (key : String) :
    (addNew found key).findSome? f = (found.findSome? f).or (f key) := by
  unfold addNew
  split
  case isTrue present =>
      cases first : found.findSome? f with
      | some path => rfl
      | none => exact (List.findSome?_eq_none_iff.mp first key present).symm
  case isFalse => rw [List.findSome?_append, List.findSome?_singleton]

theorem findSome?_foldl_addNew (f : String → Option Path) (keys found : List String) :
    (keys.foldl addNew found).findSome? f = (found ++ keys).findSome? f := by
  induction keys generalizing found with
  | nil => rw [List.foldl_nil, List.append_nil]
  | cons key rest inductionHypothesis =>
      rw [List.foldl_cons, inductionHypothesis, List.findSome?_append, findSome?_addNew,
        List.append_cons, List.findSome?_append, List.findSome?_append, List.findSome?_singleton]

end Name

namespace Index

theorem resolve?_eq (index : Index) (kind : Kind) (scope : Option String) (name : String) :
    index.resolve? kind scope name =
      ((index.entries kind)[Name.lowerAscii (Name.key kind (Name.qualify scope name))]?.or
        (index.get? kind (Name.qualify scope name))).or (index.get? kind name) := by
  have keys : [Name.lowerAscii (Name.underScope scope name), Name.underScope scope name, name].map
      (Name.key kind) = [Name.lowerAscii (Name.key kind (Name.qualify scope name))] ++
        [Name.key kind (Name.qualify scope name)] ++ [Name.key kind name] := by
    simp only [List.map_cons, List.map_nil, Name.key_lowerAscii, Name.key_underScope]
    rfl
  rw [resolve?, Name.candidates, keys, Name.findSome?_foldl_addNew, List.nil_append,
    List.findSome?_append, List.findSome?_append, List.findSome?_singleton,
    List.findSome?_singleton, List.findSome?_singleton]
  rfl

/-- A class is looked up under its qualified name and then under its bare name. Neither the case of
ASCII letters nor separators in front of the name make a difference. The candidates of any kind are
keys, each of them once. -/
theorem resolve?_classLike (index : Index) :
    (∀ scope name, index.resolve? .classLike scope name =
      (index.get? .classLike (Name.qualify scope name)).or (index.get? .classLike name)) ∧
    (∀ scope other name asked, scope.map Name.lowerAscii = other.map Name.lowerAscii →
      Name.lowerAscii (Name.relative name) = Name.lowerAscii (Name.relative asked) →
      index.resolve? .classLike scope name = index.resolve? .classLike other asked) ∧
    ∀ kind scope name, (Name.candidates kind scope name).Nodup ∧
      ∀ candidate ∈ Name.candidates kind scope name, Name.key kind candidate = candidate := by
  have lookups : ∀ scope name, index.resolve? .classLike scope name =
      (index.get? .classLike (Name.qualify scope name)).or (index.get? .classLike name) := by
    intro scope name
    rw [resolve?_eq, Name.lowerAscii_key rfl]
    change ((index.get? .classLike (Name.qualify scope name)).or _).or _ = _
    rw [Option.or_self]
  refine ⟨lookups, ?_, ?_⟩
  · intro scope other name asked sameScope sameName
    have qualified := Name.key_qualify_of_lowerAscii sameScope sameName
    have bare : Name.key .classLike name = Name.key .classLike asked := sameName
    rw [lookups, lookups, get?, get?, get?, get?, qualified, bare]
  · intro kind scope name
    exact ⟨Name.nodup_candidates kind scope name, fun _ => Name.key_candidate⟩

/-- An entry under the key of the qualified name is found, unless the kind tells cases apart and
another entry is stored under the key in lower case; that one is found instead. -/
theorem resolve?_stored {index : Index} {kind : Kind} {scope : Option String} {name : String}
    {path : Path}
    (stored : (index.entries kind)[Name.key kind (Name.qualify scope name)]? = some path) :
    index.resolve? kind scope name =
        some ((index.entries kind)[Name.lowerAscii (Name.key kind (Name.qualify scope name))]?.getD
          path) ∧
      (kind = .classLike → index.resolve? kind scope name = some path) := by
  have found : index.resolve? kind scope name =
      some ((index.entries kind)[Name.lowerAscii (Name.key kind (Name.qualify scope name))]?.getD
        path) := by
    have named : index.get? kind (Name.qualify scope name) = some path := stored
    rw [resolve?_eq, named, Option.or_some, Option.some_or]
  refine ⟨found, ?_⟩
  rintro rfl
  rw [found, Name.lowerAscii_key rfl, stored, Option.getD_some]

def mixedCases : Registry := .ofAdditions .lastWins [
  ⟨⟨"a.php"⟩, [⟨.function, "App\\Run"⟩]⟩, ⟨⟨"b.php"⟩, [⟨.function, "app\\run"⟩]⟩,
  ⟨⟨"c.php"⟩, [⟨.classLike, "App\\User"⟩]⟩, ⟨⟨"d.php"⟩, [⟨.classLike, "User"⟩]⟩]

theorem resolve?_mixedCases :
    (mixedCases.index.entries .classLike)[
        Name.key .classLike (Name.qualify (some "\\App\\") "\\USER")]? = some ⟨"c.php"⟩ ∧
      mixedCases.index.resolve? .classLike (some "\\App\\") "\\USER" = some ⟨"c.php"⟩ := by
  have stored : (mixedCases.index.entries .classLike)[
      Name.key .classLike (Name.qualify (some "\\App\\") "\\USER")]? = some ⟨"c.php"⟩ := by
    decide +kernel
  exact ⟨stored, (resolve?_stored stored).2 rfl⟩

theorem resolve?_respelled :
    (some "\\app\\\\").map Name.lowerAscii = (some "\\App\\\\").map Name.lowerAscii ∧
      mixedCases.index.resolve? .classLike (some "\\app\\\\") "\\\\uSER" =
        mixedCases.index.resolve? .classLike (some "\\App\\\\") "User" ∧
      mixedCases.index.resolve? .classLike (some "\\App\\\\") "User" = some ⟨"c.php"⟩ ∧
      mixedCases.index.resolve? .classLike (some "Lib") "User" = some ⟨"d.php"⟩ ∧
      Name.key .function "App\\Run" = "App\\Run" := by
  have sameScope :
      (some "\\app\\\\").map Name.lowerAscii = (some "\\App\\\\").map Name.lowerAscii := by
    decide +kernel
  refine ⟨sameScope, ?_, ?_, ?_, ?_⟩
  · exact (resolve?_classLike mixedCases.index).2.1 _ _ _ _ sameScope (by decide +kernel)
  · rw [(resolve?_classLike mixedCases.index).1]
    decide +kernel
  · rw [(resolve?_classLike mixedCases.index).1]
    decide +kernel
  · exact ((resolve?_classLike mixedCases.index).2.2 .function (some "App") "Run").2 _
      (by decide +kernel)

/-- The function in lower case hides the one that is asked for. -/
theorem resolve?_hidden :
    (mixedCases.index.entries .function)[
        Name.key .function (Name.qualify (some "App") "Run")]? = some ⟨"a.php"⟩ ∧
      mixedCases.index.resolve? .function (some "App") "Run" = some ⟨"b.php"⟩ := by
  decide +kernel

end Index

end AutoloadIndex
