import Mathlib
import AutoloadIndex.Proofs.Populate
import AutoloadIndex.Proofs.RegistryRun
import AutoloadIndex.Proofs.Walk
import AutoloadIndex.Scan.Run

set_option autoImplicit false

/-!
What the scan of a tree finds. If the walk and all parses succeed, the index holds the keys of all
definitions in the source files, and under each key the file that the collision policy selects among
those that define it. Which files are under the root is a relation on the tree; the walk may be any
one that lists them. Neither the order in which it does nor the way in which files are parsed
matters.
-/

namespace AutoloadIndex.Scan

def writesOf (loaded : List (Path × List Definition)) : List Write :=
  loaded.flatMap fun file => (file.2.map Definition.toSymbol).map (Write.mk file.1)

theorem addAllLoaded_ok (skipUnparsable : Bool) (registry : Registry)
    (loaded : List (Path × List Definition)) :
    (addAllLoaded skipUnparsable registry (loaded.map fun file => (file.1, .ok file.2))).result =
      match registry.run (writesOf loaded) with
      | .ok final => .ok ⟨final.withFiles (registry.files + loaded.length), 0⟩
      | .error duplicate => .error (.duplicate duplicate) := by
  induction loaded generalizing registry with
  | nil => rfl
  | cons file rest inductionHypothesis =>
      have split : writesOf (file :: rest) =
          (file.2.map Definition.toSymbol).map (Write.mk file.1) ++ writesOf rest := by
        simp [writesOf]
      rw [split, Registry.run_append, List.map_cons, addAllLoaded, Registry.addLoaded,
        Registry.add]
      rcases registry.insertAll_eq_run file.1 (file.2.map Definition.toSymbol) with
        ⟨final, collisions, ran, added⟩ | ⟨duplicate, final, ran, added⟩
      · have files := Registry.run_files ran
        rw [ran, added]
        -- The run over the other files starts from a registry that counts this one.
        have later := inductionHypothesis (final.withFiles (final.files + 1))
        rw [Registry.run_withFiles] at later
        simp only [afterAttempt, Except.mapError]
        refine later.trans ?_
        cases final.run (writesOf rest) with
        | error duplicate => rfl
        | ok last =>
            simp only [Except.map, Registry.withFiles, List.length_cons, files]
            congr 3
            omega
      · rw [ran, added]
        rfl

theorem loadFile_eq_ok {read : Reader} {parse : Parser} {path : Path} {content : List UInt8}
    {definitions : List Definition} (readable : read path = .ok content)
    (parsed : (parse content path).toOption = some definitions) :
    loadFile read parse path = .ok definitions := by
  unfold loadFile
  rw [readable]
  cases found : parse content path with
  | error fault => simp [found, Except.toOption] at parsed
  | ok other => simpa [found, Except.toOption] using parsed

theorem exists_loaded {read : Reader} {parse : Parser} {files : List Path}
    (loads : ∀ path ∈ files, ∃ definitions, loadFile read parse path = .ok definitions) :
    ∃ loaded : List (Path × List Definition), loaded.map Prod.fst = files ∧
      (files.map fun path => (path, loadFile read parse path)) =
        loaded.map (fun file => (file.1, .ok file.2)) ∧
      ∀ file ∈ loaded, loadFile read parse file.1 = .ok file.2 := by
  induction files with
  | nil => exact ⟨[], rfl, rfl, by simp⟩
  | cons path rest inductionHypothesis =>
      obtain ⟨definitions, found⟩ := loads path (by simp)
      obtain ⟨loaded, paths, pairs, each⟩ := inductionHypothesis fun other membership =>
        loads other (List.mem_cons_of_mem path membership)
      refine ⟨(path, definitions) :: loaded, by simp [paths], by simp [pairs, found], ?_⟩
      rw [List.forall_mem_cons]
      exact ⟨found, each⟩

theorem sourcesOf_of_walk {tree : FileTree} {walk : Walk} (walked : tree.WalkedBy walk)
    {root : Path} {files : List Path} (found : walk root = .ok files) :
    sourcesOf tree walk root = .ok (inOrder files) := by
  obtain ⟨entry, present⟩ := walked.rooted found
  simp only [sourcesOf, present, found]

theorem inOrder_perm (files : List Path) : (inOrder files).Perm (files.filter isSourceFile) :=
  List.mergeSort_perm _ _

theorem mem_inOrder {files : List Path} {path : Path} :
    path ∈ inOrder files ↔ path ∈ files ∧ isSourceFile path = true := by
  rw [(inOrder_perm files).mem_iff, List.mem_filter]

theorem inOrder_ascending (files : List Path) : (inOrder files).Pairwise Path.NotAfter := by
  have sorted : (inOrder files).Pairwise fun first second =>
      (first.order second != .gt) = true := by
    apply List.pairwise_mergeSort
    · simp only [bne_iff_ne]
      intro first second third front back
      exact Path.NotAfter.trans front back
    · simp only [Bool.or_eq_true, bne_iff_ne]
      exact Path.notAfter_total
  refine sorted.imp ?_
  intro first second notGreater
  simpa [Path.NotAfter] using notGreater

/-- Files that are no two of them one. -/
def Apart (files : List Path) : Prop := files.Pairwise fun first second => ¬ first.Same second

theorem inOrder_apart {files : List Path} (apart : Apart files) : Apart (inOrder files) := by
  refine (inOrder_perm files).symm.pairwise (List.Pairwise.filter _ apart) ?_
  intro first second differ same
  exact differ same.symm

theorem Apart.eq_of_same {files : List Path} (apart : Apart files) {first second : Path}
    (isFirst : first ∈ files) (isSecond : second ∈ files) (same : first.Same second) :
    first = second := by
  have symmetric : Std.Symm fun (first second : Path) => ¬ first.Same second :=
    ⟨fun _ _ differ same => differ same.symm⟩
  by_contra differ
  exact List.Pairwise.forall apart isFirst isSecond differ same

theorem inOrder_eq_of_perm {listed files : List Path} (perm : listed.Perm files)
    (apart : Apart files) : inOrder listed = inOrder files := by
  have sources : (inOrder listed).Perm (inOrder files) :=
    (inOrder_perm listed).trans ((perm.filter _).trans (inOrder_perm files).symm)
  apply sources.eq_of_pairwise ?_ (inOrder_ascending listed) (inOrder_ascending files)
  intro first second isFirst isSecond front back
  have inFiles := fun path (membership : path ∈ inOrder files) => (mem_inOrder.mp membership).1
  exact apart.eq_of_same (inFiles first (sources.mem_iff.mp isFirst)) (inFiles second isSecond)
    (front.antisymm back)

def Defines (tree : FileTree) (parse : Parser) (kind : Kind) (key : String) (path : Path) : Prop :=
  ∃ definitions, loadFile tree.read parse path = .ok definitions ∧
    ∃ definition ∈ definitions, definition.kind = kind ∧ Name.key kind definition.name = key

/-- A source file under the root that defines a key. -/
def Candidate (tree : FileTree) (parse : Parser) (root : Path) (kind : Kind) (key : String)
    (path : Path) : Prop :=
  tree.FileBelow root path ∧ isSourceFile path = true ∧ Defines tree parse kind key path

/-- The candidate that a policy selects: the greatest path, the least one, or the only one. -/
def Selected (policy : CollisionPolicy) (candidate : Path → Prop) (path : Path) : Prop :=
  candidate path ∧ ∀ other, candidate other →
    match policy with
    | .lastWins => other.NotAfter path
    | .firstWins => path.NotAfter other
    | .error => other = path

theorem hits_mk_iff {kind : Kind} {key : String} {path : Path} {definition : Definition} :
    (Write.mk path definition.toSymbol).Hits kind key ↔
      definition.kind = kind ∧ Name.key kind definition.name = key := by
  unfold Write.Hits
  constructor
  · rintro ⟨rfl, keys⟩
    exact ⟨rfl, keys⟩
  · rintro ⟨rfl, keys⟩
    exact ⟨rfl, keys⟩

theorem mem_writers_writesOf {tree : FileTree} {parse : Parser}
    {loaded : List (Path × List Definition)}
    (each : ∀ file ∈ loaded, loadFile tree.read parse file.1 = .ok file.2)
    {kind : Kind} {key : String} {path : Path} :
    path ∈ Write.writers kind key (writesOf loaded) ↔
      path ∈ loaded.map Prod.fst ∧ Defines tree parse kind key path := by
  simp only [Write.mem_writers, writesOf, List.mem_flatMap, List.mem_map]
  constructor
  · rintro ⟨write, ⟨file, inLoaded, symbol, ⟨definition, inFile, rfl⟩, rfl⟩, hits, rfl⟩
    exact ⟨⟨file, inLoaded, rfl⟩, file.2, each file inLoaded, definition, inFile,
      hits_mk_iff.mp hits⟩
  · rintro ⟨⟨file, inLoaded, rfl⟩, definitions, found, definition, inFile, hits⟩
    have same : file.2 = definitions := Except.ok.inj ((each file inLoaded).symm.trans found)
    exact ⟨⟨file.1, definition.toSymbol⟩,
      ⟨file, inLoaded, definition.toSymbol, ⟨definition, same ▸ inFile, rfl⟩, rfl⟩,
      hits_mk_iff.mpr hits, rfl⟩

theorem writers_writesOf_ascending {loaded : List (Path × List Definition)}
    (ascending : (loaded.map Prod.fst).Pairwise Path.NotAfter) (kind : Kind) (key : String) :
    (Write.writers kind key (writesOf loaded)).Pairwise Path.NotAfter := by
  have writes : (writesOf loaded).Pairwise fun first second =>
      first.path.NotAfter second.path := by
    rw [List.pairwise_map] at ascending
    unfold writesOf
    rw [List.pairwise_flatMap]
    constructor
    · intro file _
      rw [List.pairwise_map]
      refine List.pairwise_of_forall ?_
      intro first second
      exact (Path.notAfter_total file.1 file.1).elim id id
    · refine ascending.imp ?_
      intro first second notAfter
      simp only [List.mem_map]
      rintro _ ⟨_, -, rfl⟩ _ ⟨_, -, rfl⟩
      exact notAfter
  unfold Write.writers
  rw [List.pairwise_map]
  exact List.Pairwise.filter _ writes

/-- A scan of files that can all be loaded is a run of their writes on an empty registry. -/
theorem ofFiles_result {tree : FileTree} (walk : Walk) {outline : Program.Outliner}
    {family : Family} {files : List Path} {loaded : List (Path × List Definition)}
    (pairs : (files.map fun path => (path, loadFile tree.read (family.parserOver outline) path)) =
      loaded.map fun file => (file.1, .ok file.2))
    (options : Options) (root : Path) :
    (ofFiles { tree, walk, outline } family options root files).result =
      match Registry.run { policy := options.collision } (writesOf loaded) with
      | .ok final => .ok ⟨family, final.withFiles loaded.length⟩
      | .error duplicate => .error (.duplicate duplicate) := by
  have populated := addAllLoaded_ok options.skipUnparsable { policy := options.collision } loaded
  rw [← pairs, ← populate_still] at populated
  unfold ofFiles
  simp only [World.after, LiveReader.still_after, populated]
  cases Registry.run { policy := options.collision } (writesOf loaded) with
  | error duplicate => rfl
  | ok final => simp

section Selection

variable {writers : List Path} (ascending : writers.Pairwise Path.NotAfter)
  (level : ∀ first ∈ writers, ∀ second ∈ writers, first.Same second → first = second)

include ascending level

theorem getLast?_eq_some_iff_greatest (path : Path) :
    writers.getLast? = some path ↔
      path ∈ writers ∧ ∀ other ∈ writers, other.NotAfter path := by
  have greatest : ∀ last, writers.getLast? = some last →
      ∀ other ∈ writers, other.NotAfter last := by
    intro last isLast other membership
    obtain ⟨front, equality⟩ := List.getLast?_eq_some_iff.mp isLast
    rw [equality, List.pairwise_append] at ascending
    rw [equality, List.mem_append, List.mem_singleton] at membership
    rcases membership with inFront | rfl
    · exact ascending.2.2 other inFront last (by simp)
    · exact (Path.notAfter_total other other).elim id id
  constructor
  · intro isLast
    exact ⟨List.mem_of_getLast? isLast, greatest path isLast⟩
  · rintro ⟨membership, above⟩
    cases isLast : writers.getLast? with
    | none => exact absurd (List.getLast?_eq_none_iff.mp isLast ▸ membership) (by simp)
    | some last =>
        have inWriters := List.mem_of_getLast? isLast
        have same := (above last inWriters).antisymm (greatest last isLast path membership)
        rw [level last inWriters path membership same]

theorem head?_eq_some_iff_least (path : Path) :
    writers.head? = some path ↔
      path ∈ writers ∧ ∀ other ∈ writers, path.NotAfter other := by
  have least : ∀ first, writers.head? = some first → ∀ other ∈ writers, first.NotAfter other := by
    intro first isFirst other membership
    obtain ⟨back, equality⟩ := List.head?_eq_some_iff.mp isFirst
    rw [equality, List.pairwise_cons] at ascending
    rw [equality, List.mem_cons] at membership
    rcases membership with rfl | inBack
    · exact (Path.notAfter_total other other).elim id id
    · exact ascending.1 other inBack
  constructor
  · intro isFirst
    exact ⟨List.mem_of_mem_head? isFirst, least path isFirst⟩
  · rintro ⟨membership, below⟩
    cases isFirst : writers.head? with
    | none => exact absurd (List.head?_eq_none_iff.mp isFirst ▸ membership) (by simp)
    | some first =>
        have inWriters := List.mem_of_mem_head? isFirst
        have same := (least first isFirst path membership).antisymm (below first inWriters)
        rw [level first inWriters path membership same]

end Selection

/-- Files with their definitions as a scan adds them: in ascending order, and no two of them one. -/
structure Loaded (tree : FileTree) (parse : Parser) (loaded : List (Path × List Definition)) :
    Prop where
  each : ∀ file ∈ loaded, loadFile tree.read parse file.1 = .ok file.2
  ascending : (loaded.map Prod.fst).Pairwise Path.NotAfter
  apart : Apart (loaded.map Prod.fst)

namespace Loaded

variable {tree : FileTree} {parse : Parser} {loaded : List (Path × List Definition)}
  (isLoaded : Loaded tree parse loaded)

include isLoaded

theorem writers_level {kind other : Kind} {key text : String} {first second : Path}
    (isFirst : first ∈ Write.writers kind key (writesOf loaded))
    (isSecond : second ∈ Write.writers other text (writesOf loaded)) (same : first.Same second) :
    first = second :=
  isLoaded.apart.eq_of_same ((mem_writers_writesOf isLoaded.each).mp isFirst).1
    ((mem_writers_writesOf isLoaded.each).mp isSecond).1 same

theorem run_error_iff_unique :
    (∃ final, Registry.run { policy := .error } (writesOf loaded) = .ok final) ↔
      ∀ kind key, ∀ first ∈ Write.writers kind key (writesOf loaded),
        ∀ second ∈ Write.writers kind key (writesOf loaded), first = second := by
  rw [Registry.run_error_iff rfl]
  constructor
  · rintro ⟨-, agree⟩ kind key first isFirst second isSecond
    have symmetric : Std.Symm Write.Agree :=
      ⟨fun _ _ agree kind key isFirst isSecond => (agree kind key isSecond isFirst).symm⟩
    have all := agree.forall_of_forall fun _ _ _ _ _ _ => Path.Same.rfl
    obtain ⟨write, inWrites, hits, rfl⟩ := Write.mem_writers.mp isFirst
    obtain ⟨other, inOthers, otherHits, rfl⟩ := Write.mem_writers.mp isSecond
    exact isLoaded.writers_level isFirst isSecond (all inWrites inOthers kind key hits otherHits)
  · intro unique
    constructor
    · intro write _ existing stored
      rw [Registry.target, Registry.stored_empty] at stored
      exact absurd stored (by simp)
    · refine List.pairwise_of_forall_mem_list ?_
      intro write inWrites other inOthers kind key hits otherHits
      have isFirst := Write.mem_writers.mpr ⟨write, inWrites, hits, rfl⟩
      have isSecond := Write.mem_writers.mpr ⟨other, inOthers, otherHits, rfl⟩
      rw [unique kind key _ isFirst _ isSecond]
      exact Path.Same.rfl

theorem run_ok_iff (policy : CollisionPolicy) :
    (∃ final, Registry.run { policy } (writesOf loaded) = .ok final) ↔
      (policy = .error → ∀ kind key, ∀ first ∈ Write.writers kind key (writesOf loaded),
        ∀ second ∈ Write.writers kind key (writesOf loaded), first = second) := by
  cases policy with
  | lastWins => simpa using Registry.run_lastWins rfl (writesOf loaded)
  | firstWins =>
      obtain ⟨final, result, -⟩ := Registry.run_firstWins
        (show Registry.policy { policy := .firstWins } = .firstWins from rfl) (writesOf loaded)
      simpa using ⟨final, result⟩
  | error => simpa using isLoaded.run_error_iff_unique

/-- What stays under a key is the first or the last of the files that write it. -/
theorem run_stored_eq {policy : CollisionPolicy} {final : Registry}
    (result : Registry.run { policy } (writesOf loaded) = .ok final) (kind : Kind) (key : String) :
    final.stored kind key =
      if policy = .firstWins then (Write.writers kind key (writesOf loaded)).head?
      else (Write.writers kind key (writesOf loaded)).getLast? := by
  split
  case isFalse other =>
      rw [Registry.run_stored other result, Registry.stored_empty, Option.or_none]
  case isTrue equality =>
      subst equality
      obtain ⟨other, otherResult, kept⟩ := Registry.run_firstWins
        (show Registry.policy { policy := .firstWins } = .firstWins from rfl) (writesOf loaded)
      cases result.symm.trans otherResult
      have components := kept kind key
      rw [Registry.stored_empty, Option.none_or] at components
      -- The stored file and the first one are one place, and both write the key.
      cases stored : final.stored kind key with
      | none =>
          rw [stored] at components
          exact (Option.map_eq_none_iff.mp components.symm).symm
      | some file =>
          rw [stored] at components
          obtain ⟨first, isFirst, same⟩ := Option.map_eq_some_iff.mp components.symm
          have inWriters := (Registry.run_stored_mem result stored).resolve_left
            (by simp [Registry.stored_empty])
          rw [isFirst,
            isLoaded.writers_level inWriters (List.mem_of_mem_head? isFirst) same.symm]

theorem run_stored_isSome_iff {policy : CollisionPolicy} {final : Registry}
    (result : Registry.run { policy } (writesOf loaded) = .ok final) (kind : Kind) (key : String) :
    (final.stored kind key).isSome ↔ ∃ path, path ∈ Write.writers kind key (writesOf loaded) := by
  have filled : (∃ path, path ∈ Write.writers kind key (writesOf loaded)) ↔
      Write.writers kind key (writesOf loaded) ≠ [] :=
    ⟨fun ⟨_, membership⟩ => List.ne_nil_of_mem membership, List.exists_mem_of_ne_nil _⟩
  rw [isLoaded.run_stored_eq result, filled]
  split
  · exact List.isSome_head?
  · exact List.getLast?_isSome

theorem run_stored_iff_selected {policy : CollisionPolicy} {final : Registry}
    (result : Registry.run { policy } (writesOf loaded) = .ok final) (kind : Kind) (key : String)
    (path : Path) :
    final.stored kind key = some path ↔
      Selected policy (· ∈ Write.writers kind key (writesOf loaded)) path := by
  have ascending := writers_writesOf_ascending isLoaded.ascending kind key
  have level : ∀ first ∈ Write.writers kind key (writesOf loaded),
      ∀ second ∈ Write.writers kind key (writesOf loaded), first.Same second → first = second :=
    fun _ isFirst _ isSecond same => isLoaded.writers_level isFirst isSecond same
  have greatest := getLast?_eq_some_iff_greatest ascending level path
  rw [isLoaded.run_stored_eq result]
  cases policy with
  | lastWins => exact greatest
  | firstWins => exact head?_eq_some_iff_least ascending level path
  | error =>
      have unique := isLoaded.run_error_iff_unique.mp ⟨final, result⟩ kind key
      refine greatest.trans (and_congr_right ?_)
      intro membership
      refine forall₂_congr ?_
      intro other isOther
      rw [unique other isOther path membership]
      exact ⟨fun _ => rfl, fun _ => (Path.notAfter_total path path).elim id id⟩

end Loaded

section Tree

variable {tree : FileTree} {walk : Walk} (walked : tree.WalkedBy walk) {root : Path}
  {files : List Path} (found : walk root = .ok files) {outline : Program.Outliner}

include walked found

theorem ofTree_eq_ofFiles (family : Family) (options : Options) {listed : List Path}
    (perm : listed.Perm files) :
    ofTree { tree, walk, outline } family options root =
      ofFiles { tree, walk, outline } family options root (inOrder listed) := by
  unfold ofTree
  rw [sourcesOf_of_walk walked found, inOrder_eq_of_perm perm (walked.apart found)]

theorem perm_of_walkedBy {other : FileTree} {second : Walk} (secondWalked : other.WalkedBy second)
    {others : List Path} (foundOthers : second root = .ok others)
    (sameFiles : ∀ path, other.FileBelow root path ↔ tree.FileBelow root path) :
    others.Perm files := by
  have nodup : ∀ {list : List Path}, Apart list → list.Nodup := by
    intro list apart
    refine apart.imp ?_
    rintro first second differ rfl
    exact differ Path.Same.rfl
  refine (List.perm_ext_iff_of_nodup (nodup (secondWalked.apart foundOthers))
    (nodup (walked.apart found))).mpr fun path => ?_
  rw [secondWalked.lists foundOthers, walked.lists found, sameFiles]

/-- The order in which entries are listed and the way in which they are walked do not matter. -/
theorem ofTree_eq_of_walkedBy {other : FileTree} {second : Walk}
    (secondWalked : other.WalkedBy second) {others : List Path}
    (foundOthers : second root = .ok others)
    (sameFiles : ∀ path, other.FileBelow root path ↔ tree.FileBelow root path)
    (sameRead : other.read = tree.read) (family : Family) (options : Options) :
    ofTree { tree := other, walk := second, outline } family options root =
      ofTree { tree, walk, outline } family options root := by
  have perm := perm_of_walkedBy walked found secondWalked foundOthers sameFiles
  rw [ofTree_eq_ofFiles secondWalked foundOthers family options (List.Perm.refl others),
    ofTree_eq_ofFiles walked found family options perm]
  simp only [ofFiles, World.after, sameRead]

variable {family : Family} (loads : ∀ path, tree.FileBelow root path → isSourceFile path = true →
  ∃ definitions, loadFile tree.read (family.parserOver outline) path = .ok definitions)

include loads

theorem exists_isLoaded :
    ∃ loaded, Loaded tree (family.parserOver outline) loaded ∧
      (∀ kind key, (· ∈ Write.writers kind key (writesOf loaded)) =
        Candidate tree (family.parserOver outline) root kind key) ∧
      ∀ options, (ofTree { tree, walk, outline } family options root).result =
        match Registry.run { policy := options.collision } (writesOf loaded) with
        | .ok final => .ok ⟨family, final.withFiles loaded.length⟩
        | .error duplicate => .error (.duplicate duplicate) := by
  obtain ⟨loaded, paths, pairs, each⟩ := exists_loaded fun path membership =>
    loads path ((walked.lists found path).mp (mem_inOrder.mp membership).1)
      (mem_inOrder.mp membership).2
  refine ⟨loaded, ⟨each, ?_, ?_⟩, ?_, ?_⟩
  · rw [paths]
    exact inOrder_ascending files
  · rw [paths]
    exact inOrder_apart (walked.apart found)
  · intro kind key
    funext path
    apply propext
    rw [mem_writers_writesOf each, paths, mem_inOrder, and_assoc, walked.lists found]
    rfl
  · intro options
    rw [ofTree_eq_ofFiles walked found family options (List.Perm.refl files)]
    exact ofFiles_result walk pairs options root

theorem ofTree_succeeds_iff (options : Options) :
    (∃ scanned, (ofTree { tree, walk, outline } family options root).result = .ok scanned) ↔
      (options.collision = .error → ∀ kind key first second,
        Candidate tree (family.parserOver outline) root kind key first →
          Candidate tree (family.parserOver outline) root kind key second → first = second) := by
  obtain ⟨loaded, isLoaded, candidates, result⟩ := exists_isLoaded walked found loads
  have ran : (∃ scanned,
      (ofTree { tree, walk, outline } family options root).result = .ok scanned) ↔
        ∃ final, Registry.run { policy := options.collision } (writesOf loaded) = .ok final := by
    rw [result]
    cases Registry.run { policy := options.collision } (writesOf loaded) <;> simp
  rw [ran, isLoaded.run_ok_iff]
  simp only [← candidates]
  exact ⟨fun unique policy kind key first second isFirst isSecond =>
      unique policy kind key first isFirst second isSecond,
    fun unique policy kind key first isFirst second isSecond =>
      unique policy kind key first second isFirst isSecond⟩

theorem ofTree_stored {options : Options} {scanned : Scanned}
    (success : (ofTree { tree, walk, outline } family options root).result = .ok scanned)
    (kind : Kind) (key : String) :
    ((scanned.registry.stored kind key).isSome ↔
      ∃ path, Candidate tree (family.parserOver outline) root kind key path) ∧
    ∀ path, scanned.registry.stored kind key = some path ↔
      Selected options.collision (Candidate tree (family.parserOver outline) root kind key)
        path := by
  obtain ⟨loaded, isLoaded, candidates, result⟩ := exists_isLoaded walked found loads
  rw [result] at success
  cases ran : Registry.run { policy := options.collision } (writesOf loaded) with
  | error duplicate =>
      rw [ran] at success
      exact absurd success (by simp)
  | ok final =>
      rw [ran] at success
      cases success
      rw [← candidates]
      exact ⟨isLoaded.run_stored_isSome_iff ran kind key,
        isLoaded.run_stored_iff_selected ran kind key⟩

theorem ofTree_of_error {options : Options} {scanned : Scanned}
    (success : (ofTree { tree, walk, outline } family { options with collision := .error }
      root).result = .ok scanned) :
    ∃ other, (ofTree { tree, walk, outline } family options root).result = .ok other ∧
      other.registry.stored = scanned.registry.stored := by
  have unique := (ofTree_succeeds_iff walked found loads
    { options with collision := .error }).mp ⟨scanned, success⟩ rfl
  obtain ⟨other, result⟩ :=
    (ofTree_succeeds_iff walked found loads options).mpr fun _ => unique
  refine ⟨other, result, ?_⟩
  funext kind key
  apply Option.ext
  intro path
  rw [(ofTree_stored walked found loads result kind key).2,
    (ofTree_stored walked found loads success kind key).2]
  refine and_congr_right ?_
  intro candidate
  refine forall₂_congr ?_
  intro file isCandidate
  rw [unique kind key file path isCandidate candidate]
  have level : path.NotAfter path := (Path.notAfter_total path path).elim id id
  cases options.collision <;> simp [level]

end Tree

/-- If the walk of a tree succeeds and all source files below the root can be parsed, a scan stores
exactly the keys that the files define, each for the file that the policy selects. It fails only if
the policy is the error policy and two files define one key, and if it does not fail then, all
policies agree. The walk is any one that lists each file once. In which order it lists them does not
matter, nor in which order the tree lists its entries. -/
theorem ofTree_stores_selected {tree : FileTree} {walk : Walk} (walked : tree.WalkedBy walk)
    {root : Path} {files : List Path} (found : walk root = .ok files) (outline : Program.Outliner)
    (family : Family)
    (loads : ∀ path, tree.FileBelow root path → isSourceFile path = true →
      ∃ definitions, loadFile tree.read (family.parserOver outline) path = .ok definitions)
    (options : Options) :
    ((∃ scanned, (ofTree { tree, walk, outline } family options root).result = .ok scanned) ↔
      (options.collision = .error → ∀ kind key first second,
        Candidate tree (family.parserOver outline) root kind key first →
          Candidate tree (family.parserOver outline) root kind key second → first = second)) ∧
    (∀ scanned, (ofTree { tree, walk, outline } family options root).result = .ok scanned →
      ∀ kind key,
        ((scanned.registry.stored kind key).isSome ↔
          ∃ path, Candidate tree (family.parserOver outline) root kind key path) ∧
        ∀ path, scanned.registry.stored kind key = some path ↔
          Selected options.collision (Candidate tree (family.parserOver outline) root kind key)
            path) ∧
    (∀ scanned, (ofTree { tree, walk, outline } family { options with collision := .error }
      root).result = .ok scanned →
        ∃ other, (ofTree { tree, walk, outline } family options root).result = .ok other ∧
          other.registry.stored = scanned.registry.stored) ∧
    (∀ second others, tree.WalkedBy second → second root = .ok others →
      ofTree { tree, walk := second, outline } family options root =
        ofTree { tree, walk, outline } family options root) ∧
    (tree.WellFormed → ∀ other second others, tree.SameEntries other → other.WalkedBy second →
      second root = .ok others →
        ofTree { tree := other, walk := second, outline } family options root =
          ofTree { tree, walk, outline } family options root) ∧
    (∀ listed, listed.Perm files →
      ofFiles { tree, walk, outline } family options root (inOrder listed) =
        ofTree { tree, walk, outline } family options root) := by
  refine ⟨ofTree_succeeds_iff walked found loads options,
    fun scanned success => ofTree_stored walked found loads success,
    fun scanned success => ofTree_of_error walked found loads success, ?_, ?_, ?_⟩
  · intro second others secondWalked foundOthers
    exact ofTree_eq_of_walkedBy walked found secondWalked foundOthers (fun _ => Iff.rfl) rfl family
      options
  · intro wellFormed other second others same secondWalked foundOthers
    exact ofTree_eq_of_walkedBy walked found secondWalked foundOthers
      (fun path => (same.fileBelow_iff wellFormed root path).symm) (same.read_eq wellFormed).symm
      family options
  · intro listed perm
    exact (ofTree_eq_ofFiles walked found family options perm).symm

/-- Two files that define one class, spelled in two ways. One is in a directory, which comes before
the other file though its name is the longer one. -/
def nestedFiles : FileTree where
  entries := [
    (["lib"], .directory),
    (["lib", "a.php"],
      .file [60, 63, 112, 104, 112, 32, 99, 108, 97, 115, 115, 32, 97, 123, 125]),
    (["lib.php"], .file [60, 63, 112, 104, 112, 32, 99, 108, 97, 115, 115, 32, 65, 123, 125])]

theorem nestedFiles_wellFormed : nestedFiles.WellFormed where
  distinct := by decide
  named := by
    simp only [nestedFiles, List.forall_mem_cons]
    decide

theorem nestedFiles_children : nestedFiles.children [] = ["lib", "lib.php"] :=
  List.mergeSort_of_pairwise (by decide)

theorem nestedFiles_files : nestedFiles.files ⟨"/"⟩ = .ok [⟨"/lib/a.php"⟩, ⟨"/lib.php"⟩] := by
  have located : nestedFiles.locate ⟨"/"⟩ = .ok [] := by cbv
  have listed : nestedFiles.filesBelow nestedFiles.depthBound [] ⟨"/"⟩ [] =
      .ok [⟨"/lib/a.php"⟩, ⟨"/lib.php"⟩] := by
    rw [FileTree.depthBound, FileTree.filesBelow_succ, nestedFiles_children]
    cbv
  rw [FileTree.files, located]
  exact listed

theorem nestedFiles_loads :
    loadFile nestedFiles.read Family.factScan.parser ⟨"/lib/a.php"⟩ =
        .ok [⟨⟨.classLike, "a"⟩, ⟨"/lib/a.php"⟩⟩] ∧
      loadFile nestedFiles.read Family.factScan.parser ⟨"/lib.php"⟩ =
        .ok [⟨⟨.classLike, "A"⟩, ⟨"/lib.php"⟩⟩] := by
  constructor
  · refine loadFile_eq_ok
      (show _ = Except.ok [60, 63, 112, 104, 112, 32, 99, 108, 97, 115, 115, 32, 97, 123, 125]
        from ?_) ?_
    · cbv
    · decide +kernel
  · refine loadFile_eq_ok
      (show _ = Except.ok [60, 63, 112, 104, 112, 32, 99, 108, 97, 115, 115, 32, 65, 123, 125]
        from ?_) ?_
    · cbv
    · decide +kernel

theorem nestedFiles_below (path : Path) :
    nestedFiles.FileBelow ⟨"/"⟩ path ↔ path = ⟨"/lib/a.php"⟩ ∨ path = ⟨"/lib.php"⟩ := by
  rw [← nestedFiles_wellFormed.walkedBy_files.lists nestedFiles_files]
  simp

theorem nestedFiles_candidate_iff (path : Path) :
    Candidate nestedFiles Family.factScan.parser ⟨"/"⟩ .classLike "a" path ↔
      path = ⟨"/lib/a.php"⟩ ∨ path = ⟨"/lib.php"⟩ := by
  obtain ⟨first, second⟩ := nestedFiles_loads
  rw [Candidate, nestedFiles_below]
  refine and_iff_left_of_imp ?_
  rintro (rfl | rfl)
  · exact ⟨by decide +kernel, _, first, _, List.mem_singleton_self _, by decide +kernel⟩
  · exact ⟨by decide +kernel, _, second, _, List.mem_singleton_self _, by decide +kernel⟩

/-- The error policy does not allow the two files, and otherwise the last of them is stored. -/
theorem ofTree_nestedFiles :
    (¬ ∃ scanned, (ofTree { tree := nestedFiles } .factScan { collision := .error } ⟨"/"⟩).result =
      .ok scanned) ∧
    ∃ scanned, (ofTree { tree := nestedFiles } .factScan {} ⟨"/"⟩).result = .ok scanned ∧
      scanned.registry.stored .classLike "a" = some ⟨"/lib.php"⟩ := by
  have loads : ∀ path, nestedFiles.FileBelow ⟨"/"⟩ path → isSourceFile path = true →
      ∃ definitions, loadFile nestedFiles.read Family.factScan.parser path = .ok definitions := by
    simp [nestedFiles_below, nestedFiles_loads]
  have walked := nestedFiles_wellFormed.walkedBy_files
  have strict := ofTree_stores_selected walked nestedFiles_files Program.outline .factScan loads
    { collision := .error }
  have lax := ofTree_stores_selected walked nestedFiles_files Program.outline .factScan loads {}
  constructor
  · intro success
    have unique := strict.1.mp success rfl .classLike "a" ⟨"/lib/a.php"⟩ ⟨"/lib.php"⟩
      ((nestedFiles_candidate_iff _).mpr (.inl rfl)) ((nestedFiles_candidate_iff _).mpr (.inr rfl))
    exact absurd unique (by decide)
  · obtain ⟨scanned, result⟩ := lax.1.mpr (by simp)
    refine ⟨scanned, result, ((lax.2.1 scanned result .classLike "a").2 _).mpr ?_⟩
    refine ⟨(nestedFiles_candidate_iff _).mpr (.inr rfl), ?_⟩
    intro other isCandidate
    rcases (nestedFiles_candidate_iff other).mp isCandidate with rfl | rfl <;> decide +kernel

end AutoloadIndex.Scan
