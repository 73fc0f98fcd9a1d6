import AutoloadIndex.Path

set_option autoImplicit false

/-!
The order of paths is a total preorder, in which two paths are level exactly if they have the same
components. A name put behind a directory adds one component to it.
-/

namespace AutoloadIndex.Path

namespace Component

instance : Std.LawfulEqCmp order where
  compare_self := by
    intro component
    cases component <;> simp [order]
  eq_of_compare := by
    intro first second level
    cases first <;> cases second <;> simp_all [order]

instance : Std.OrientedCmp order where
  eq_swap := by
    intro first second
    cases first <;> cases second <;> simp [order]
    exact Std.OrientedOrd.eq_swap

instance : Std.TransCmp order where
  isLE_trans := by
    intro first second third
    cases first <;> cases second <;> cases third <;> simp [order]
    exact Std.TransOrd.isLE_trans

end Component

instance : Std.TransCmp Path.order where
  eq_swap := by
    intro first second
    unfold order
    exact Std.OrientedCmp.eq_swap
  isLE_trans := by
    intro first second third
    unfold order
    exact Std.TransCmp.isLE_trans

theorem order_eq_iff_same (first second : Path) : first.order second = .eq ↔ first.Same second := by
  unfold order Same
  exact Std.LawfulEqCmp.compare_eq_iff_eq

def NotAfter (first second : Path) : Prop := first.order second ≠ .gt

instance (first second : Path) : Decidable (first.NotAfter second) :=
  inferInstanceAs (Decidable (_ ≠ _))

theorem notAfter_iff_isLE (first second : Path) :
    first.NotAfter second ↔ (first.order second).isLE = true := by
  unfold NotAfter
  cases first.order second <;> simp

theorem NotAfter.trans {first second third : Path}
    (front : first.NotAfter second) (back : second.NotAfter third) : first.NotAfter third := by
  rw [notAfter_iff_isLE] at *
  exact Std.TransCmp.isLE_trans front back

theorem notAfter_total (first second : Path) : first.NotAfter second ∨ second.NotAfter first := by
  have swapped : second.order first = (first.order second).swap := Std.OrientedCmp.eq_swap
  rw [notAfter_iff_isLE, notAfter_iff_isLE, swapped]
  cases first.order second <;> simp

theorem NotAfter.antisymm {first second : Path}
    (front : first.NotAfter second) (back : second.NotAfter first) : first.Same second := by
  rw [notAfter_iff_isLE] at *
  exact (order_eq_iff_same first second).mp (Std.OrientedCmp.isLE_antisymm front back)

structure IsEntryName (name : String) : Prop where
  nonempty : name ≠ ""
  notCurrent : name ≠ "."
  notParent : name ≠ ".."
  noSlash : '/' ∉ name.toList

instance (name : String) : Decidable (IsEntryName name) :=
  decidable_of_iff (name ≠ "" ∧ name ≠ "." ∧ name ≠ ".." ∧ '/' ∉ name.toList)
    ⟨fun ⟨nonempty, notCurrent, notParent, noSlash⟩ => ⟨nonempty, notCurrent, notParent, noSlash⟩,
      fun isName => ⟨isName.nonempty, isName.notCurrent, isName.notParent, isName.noSlash⟩⟩

theorem pieces_ne_nil (cs : List Char) : pieces cs ≠ [] := by
  cases cs with
  | nil => simp [pieces]
  | cons c rest =>
      unfold pieces
      split
      · simp
      · split <;> simp

theorem pieces_append_slash (front back : List Char) :
    pieces (front ++ '/' :: back) = pieces front ++ pieces back := by
  induction front with
  | nil => simp [pieces]
  | cons c rest inductionHypothesis =>
      by_cases slash : c = '/'
      · simp [pieces, slash, inductionHypothesis]
      · rw [List.cons_append, pieces, if_neg slash, inductionHypothesis, pieces, if_neg slash]
        cases parts : pieces rest with
        | nil => exact absurd parts (pieces_ne_nil rest)
        | cons piece more => simp

theorem pieces_of_not_mem {cs : List Char} (noSlash : '/' ∉ cs) : pieces cs = [cs] := by
  induction cs with
  | nil => rfl
  | cons c rest inductionHypothesis =>
      rw [List.mem_cons, not_or] at noSlash
      rw [pieces, if_neg (Ne.symm noSlash.1), inductionHypothesis noSlash.2]

/-- The component that the first piece of a path may stand for beside its name. -/
def front (parts : List (List Char)) : List Component :=
  match parts with
  | [] :: _ :: _ => [.root]
  | ['.'] :: _ => [.current]
  | _ => []

theorem components_eq (path : Path) :
    path.components =
      front (pieces path.spelling.toList) ++ (pieces path.spelling.toList).filterMap inner? := rfl

theorem front_append {parts more : List (List Char)} (long : parts ≠ [[]]) (some : parts ≠ []) :
    front (parts ++ more) = front parts := by
  match parts with
  | [] => exact absurd rfl some
  | [piece] =>
      cases piece with
      | nil => exact absurd rfl long
      | cons c rest =>
          by_cases dot : c = '.' <;> cases more <;> cases rest <;> simp [front, dot]
  | [] :: second :: rest => rfl
  | (c :: piece) :: second :: rest =>
      by_cases dot : c = '.' <;> cases piece <;> simp [front, dot]

@[simp]
theorem inner?_nil : inner? [] = none := rfl

theorem inner?_name {name : String} (isName : IsEntryName name) :
    inner? name.toList = some (.normal name) := by
  have nonempty : name.toList ≠ [] := by simpa using isName.nonempty
  have notCurrent : name.toList ≠ ['.'] := by
    intro equality
    exact isName.notCurrent (String.toList_inj.mp equality)
  have notParent : name.toList ≠ ['.', '.'] := by
    intro equality
    exact isName.notParent (String.toList_inj.mp equality)
  simp [inner?, nonempty, notCurrent, notParent]

theorem front_name {name : String} (isName : IsEntryName name) : front [name.toList] = [] := by
  have notCurrent : name.toList ≠ ['.'] := by
    intro equality
    exact isName.notCurrent (String.toList_inj.mp equality)
  match list : name.toList with
  | [] => rfl
  | [c] =>
      have other : c ≠ '.' := by
        intro equality
        exact notCurrent (by rw [list, equality])
      simp [front, other]
  | _ :: _ :: _ => simp [front]

theorem components_join (directory : Path) {name : String} (isName : IsEntryName name) :
    (directory.join name).components = directory.components ++ [.normal name] := by
  have namePieces : pieces name.toList = [name.toList] := pieces_of_not_mem isName.noSlash
  have relative : ¬ name.startsWith "/" = true := by
    rw [String.startsWith_string_iff]
    rintro ⟨rest, spelled⟩
    exact isName.noSlash (by rw [← spelled]; simp)
  rw [join, if_neg relative]
  split
  case isTrue ended =>
      rcases ended with empty | slash
      · have nothing : directory.spelling = "" := by simpa using empty
        have startFront : front [[]] = [] := rfl
        simp [components_eq, nothing, namePieces, front_name isName, inner?_name isName, pieces,
          startFront]
      · rw [String.endsWith, String.Slice.endsWith_string_iff] at slash
        obtain ⟨start, spelled⟩ := slash
        have spelling : directory.spelling.toList = start ++ '/' :: [] := by simpa using spelled.symm
        have joined : (directory.spelling ++ name).toList = start ++ '/' :: name.toList := by
          simp [spelling]
        have startNil : pieces [] = [[]] := rfl
        simp only [components_eq, joined, spelling, pieces_append_slash, namePieces, startNil]
        -- The front is decided by the pieces before the last slash, unless there are none.
        by_cases bare : pieces start = [[]]
        · simp [bare, front, inner?_name isName, List.filterMap_cons]
        · rw [front_append bare (pieces_ne_nil start), front_append bare (pieces_ne_nil start)]
          simp [inner?_name isName]
  case isFalse ended =>
      rw [not_or] at ended
      have joined : (directory.spelling ++ "/" ++ name).toList =
          directory.spelling.toList ++ '/' :: name.toList := by simp
      have long : pieces directory.spelling.toList ≠ [[]] := by
        intro single
        cases list : directory.spelling.toList with
        | nil => exact ended.1 (by simpa using list)
        | cons c rest =>
            rw [list, pieces] at single
            split at single
            · exact pieces_ne_nil rest (by simpa using single)
            · split at single <;> simp at single
      simp only [components_eq, joined, pieces_append_slash, namePieces]
      rw [front_append long (pieces_ne_nil _)]
      simp [inner?_name isName]

end AutoloadIndex.Path
