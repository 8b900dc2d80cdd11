import ImportAudit.Proofs.Cache.Attribution
import ImportAudit.Proofs.FileTree.Order
import ImportAudit.Proofs.Scan.Schedule
import ImportAudit.Proofs.Source.JoinedLines
import ImportAudit.Proofs.Text.Bytes

/-!
# How a scan files what it reads

An index that a scan has made without a result cache has one import record for each file and one
entry of declarations for each file that declares something, all under their own names; the
declarations come by file and then by line; the components are the files with the extension; and
the counts of the scan are those of its index. This holds of a scan whatever its schedule.
-/

namespace ImportAudit

/-! ## Lines of declarations -/

theorem Extraction.increasing_ofSource
    (settings : Extraction.Settings) (file source : String) :
    (ofSource settings file source).declarations.Pairwise (·.line < ·.line) := by
  rw [ofSource]
  dsimp only
  split
  · exact Declaration.increasing_inLines file settings.markers 1 _
  · exact List.Pairwise.nil

theorem Extraction.scansDeclarations_of_declares
    {settings : Extraction.Settings} {file source : String}
    (declares : (ofSource settings file source).declarations ≠ []) :
    ∃ extension ∈ settings.extensions, extension.toList <:+ file.toList := by
  rw [ofSource] at declares
  dsimp only at declares
  split at declares
  · rename_i scans
    obtain ⟨extension, listed, ends⟩ := List.any_eq_true.mp scans
    exact ⟨extension, listed, List.isSuffixOf_iff_suffix.mp ends⟩
  · exact absurd rfl declares

/-! ## Places of files -/

theorem idxOf_increasing {files : List String} (once : files.Nodup) :
    files.Pairwise fun earlier later => files.idxOf earlier < files.idxOf later := by
  rw [List.pairwise_iff_getElem]
  intro place other inside otherInside before
  rw [once.idxOf_getElem, once.idxOf_getElem]
  exact before

/-- What is brought file by file is in the order of the files, and in that of the lines within
each of them. -/
theorem increasing_flatMap
    {files : List String} (once : files.Nodup) {brought : String → List Declaration}
    (labelled : ∀ file, ∀ declared ∈ brought file, declared.file = file)
    (increasing : ∀ file, (brought file).Pairwise (·.line < ·.line)) :
    (files.flatMap brought).Pairwise fun earlier later =>
      Prod.Lex (· < ·) (· < ·) (files.idxOf earlier.file, earlier.line)
        (files.idxOf later.file, later.line) := by
  rw [List.pairwise_flatMap]
  constructor
  · intro file _
    refine (increasing file).imp_of_mem fun {earlier later} inEarlier inLater less => ?_
    rw [labelled file earlier inEarlier, labelled file later inLater]
    exact Prod.Lex.right _ less
  · refine (idxOf_increasing once).imp fun {file other} before earlier inFile later inOther => ?_
    rw [labelled file earlier inFile, labelled other later inOther]
    exact Prod.Lex.left _ _ before

/-! ## Well-filed indexes -/

/-- An index is filed as it should be: by the texts that are read below the root under the
settings, and with the components of the extension. -/
structure Index.WellFiled (index : Index) (settings : Extraction.Settings) (tree : FileTree)
    (root componentExtension : String) : Prop where
  once : index.files.Nodup
  imports : index.imports.map (·.1) = index.files
  declarations : index.declarations.map (·.1) = index.files.filter fun file =>
    (Extraction.ofSource settings file (tree.textAt root file)).declarations ≠ []
  extensions : ∀ file ∈ index.declarations.map (·.1),
    ∃ extension ∈ settings.extensions, extension.toList <:+ file.toList
  labels : index.OwnLabels
  inOrder : index.declarationsInOrder.Pairwise fun earlier later =>
    Prod.Lex (· < ·) (· < ·) (index.files.idxOf earlier.file, earlier.line)
      (index.files.idxOf later.file, later.line)
  records : index.importsInOrder.map (·.file) = index.files
  componentFiles : index.components.map (·.file) = index.files.filter fun file =>
    (Catalog.extensionOrDefault componentExtension).toList <:+ file.toList
  componentNames : ∀ component ∈ index.components, component.name = Component.stem component.file

/-- Counts that are those of an index, none of whose files failed. -/
structure ScanStats.Counts (stats : ScanStats) (index : Index) : Prop where
  discovered : stats.filesDiscovered = index.files.length
  indexed : stats.filesIndexed = index.files.length
  failed : stats.filesFailed = 0
  imports : stats.importsExtracted = index.surface.length
  declarations : stats.declarationsExtracted = index.declarationsInOrder.length
  components : stats.componentsFound = index.components.length

namespace Scan

variable {settings : Extraction.Settings} {tree : FileTree} {root : String} {options : Options}

section Texts

variable (settings : Extraction.Settings) (tree : FileTree) (root : String) (options : Options)
  (files : List String)

@[simp]
theorem textResults_files : (textResults settings tree root files).map (·.1) = files := by
  rw [textResults, List.map_map]
  exact List.map_id files

theorem textResults_labelled :
    ∀ found ∈ textResults settings tree root files, found.2.1.LabelledBy found.1 := by
  intro found member
  obtain ⟨file, _, rfl⟩ := List.mem_map.mp member
  exact Extraction.ofSource_labelledBy settings file _

/-- The declarations of an index of texts are those of the texts, file by file. -/
theorem textBuilt_declarationsInOrder :
    (textBuilt settings tree root options files).index.declarationsInOrder =
      files.flatMap fun file =>
        (Extraction.ofSource settings file (tree.textAt root file)).declarations :=
  List.flatMap_congr fun _ member =>
    lookup_assembled settings tree root options.componentExtension member

theorem textBuilt_importsInOrder :
    (textBuilt settings tree root options files).index.importsInOrder =
      files.map fun file => (Extraction.ofSource settings file (tree.textAt root file)).imports :=
  assemble_importsInOrder settings tree root options.componentExtension files

@[simp]
theorem total_eq_sum (counts : List Nat) : total counts = counts.sum :=
  List.sum_eq_foldr.symm

/-- The declarations that are filed are those of the files that declare something. -/
theorem textBuilt_declaring :
    (textBuilt settings tree root options files).index.declarations.map (·.1) =
      files.filter fun file =>
        (Extraction.ofSource settings file (tree.textAt root file)).declarations ≠ [] := by
  simp only [textBuilt, assemble, textResults, List.filterMap_map, List.map_filterMap,
    ← List.filterMap_eq_filter]
  refine List.filterMap_congr fun file _ => ?_
  by_cases empty : (Extraction.ofSource settings file (tree.textAt root file)).declarations = []
  · simp [empty, Option.guard]
  · simp [empty, Option.guard]

/-- An index from the texts of distinct files is well filed. -/
theorem textBuilt_wellFiled (once : files.Nodup) :
    (textBuilt settings tree root options files).index.WellFiled settings tree root
      options.componentExtension where
  once := once
  imports := by
    simp only [textBuilt, assemble, textResults, List.map_map]
    exact List.map_id files
  declarations := textBuilt_declaring settings tree root options files
  extensions := by
    intro file member
    rw [textBuilt_declaring] at member
    exact Extraction.scansDeclarations_of_declares (by simpa using (List.mem_filter.mp member).2)
  labels := assemble_ownLabels (textResults_files settings tree root files)
    (textResults_labelled settings tree root files) root options.componentExtension
  inOrder := by
    rw [textBuilt_declarationsInOrder]
    refine increasing_flatMap once (fun file => ?_) fun file => ?_
    · exact (Extraction.ofSource_labelledBy settings file _).declarations
    · exact Extraction.increasing_ofSource settings file _
  records := by
    rw [textBuilt_importsInOrder, List.map_map]
    exact List.map_id files
  componentFiles := by
    simp only [textBuilt, assemble, Catalog.ofFiles, List.map_map]
    refine (List.map_id _).trans (List.filter_congr fun file _ => ?_)
    rw [Bool.eq_iff_iff, decide_eq_true_iff]
    exact List.isSuffixOf_iff_suffix
  componentNames := by
    intro component member
    obtain ⟨file, _, rfl⟩ := List.mem_map.mp member
    rfl

theorem textBuilt_counts :
    (textBuilt settings tree root options files).stats.Counts
      (textBuilt settings tree root options files).index where
  discovered := rfl
  indexed := congrArg Nat.cast (List.length_map _)
  failed := rfl
  imports := by
    rw [Index.surface, textBuilt_importsInOrder, List.flatMap_map, List.length_flatMap]
    simp only [textBuilt, statsOf, total_eq_sum, textResults, List.map_map]
    rfl
  declarations := by
    rw [textBuilt_declarationsInOrder, List.length_flatMap]
    simp only [textBuilt, statsOf, total_eq_sum, textResults, List.map_map]
    rfl
  components := rfl

end Texts

/-- Every scan without a result cache that succeeds, in whatever order its workers take their
steps, files what it reads as it should be, under the files that discovery finds, and counts what
it files. -/
theorem built_wellFiled
    (wellNamed : tree.top.WellNamed) (ordered : tree.top.Ordered) :
    (∀ cancelled built, (build none settings tree root options cancelled).result = .ok built →
      discovered tree root options = .ok built.index.files ∧
      built.index.WellFiled settings tree root options.componentExtension ∧
        built.stats.Counts built.index) ∧
    ∀ cancelled index stats after,
      Builds none settings tree root options cancelled (.built index stats) after →
      discovered tree root options = .ok index.files ∧
      index.WellFiled settings tree root options.componentExtension ∧ stats.Counts index := by
  have sequential : ∀ cancelled built,
      (build none settings tree root options cancelled).result = .ok built →
      discovered tree root options = .ok built.index.files ∧
      built.index.WellFiled settings tree root options.componentExtension ∧
        built.stats.Counts built.index := by
    intro cancelled built succeeded
    obtain ⟨files, found, _, rfl⟩ := build_assembled (build_of_cancelled succeeded)
    have once := Discovery.nodup_files wellNamed ordered found
    exact ⟨found, textBuilt_wellFiled settings tree root options files once,
      textBuilt_counts settings tree root options files⟩
  refine ⟨sequential, fun cancelled index stats after builds => ?_⟩
  rcases builds.sequential with same | ⟨_, stopped⟩
  · cases result : (build none settings tree root options false).result with
    | error fault =>
      rw [result] at same
      cases same
    | ok built =>
      rw [result] at same
      cases same
      exact sequential false built result
  · cases stopped

/-- A component and a file that imports it and declares another name. -/
def pairTree : FileTree :=
  ⟨[("A.tsx", .file "".toUTF8 0), ("b.ts", .file "import A from 'm'\nexport type B = A".toUTF8 0)]⟩

theorem wellNamed_pairTree : pairTree.top.WellNamed := by
  decide

theorem ordered_pairTree : pairTree.top.Ordered := by
  have before : "A.tsx" < "b.ts" := by decide
  exact ⟨List.forall_mem_singleton.mpr before, trivial, List.forall_mem_nil _, trivial, trivial⟩

theorem readable_pairTree :
    ∀ job ∈ jobsOf "." ["A.tsx", "b.ts"], (pairTree.textAt? "." job.file).isSome = true := by
  have textAt (file text : String) (placed : Path.IsName file ∧ Path.join [".", file] = file)
      (found : FileTree.nodeAt? pairTree.top [file] = some (.file text.toUTF8 0)) :
      (pairTree.textAt? "." file).isSome = true := by
    obtain ⟨isName, joined⟩ := placed
    have read := FileTree.read_of_nodeAt? (List.forall_mem_singleton.mpr isName)
      (List.cons_ne_nil file []) found
    rw [Path.below_singleton isName] at read
    rw [FileTree.textAt?, joined, read]
    exact congrArg Option.isSome (Text.fromUTF8?_toUTF8 text)
  have first := textAt "A.tsx" "" (by decide) rfl
  have second := textAt "b.ts" "import A from 'm'\nexport type B = A" (by decide) rfl
  rw [← List.forall_mem_map (f := fun job : Job => job.file)
    (P := fun file => (pairTree.textAt? "." file).isSome = true), jobsOf_files]
  exact List.forall_mem_cons.mpr ⟨first, List.forall_mem_singleton.mpr second⟩

theorem built_wellFiled_pairTree :
    ∃ built, (build none .default pairTree "." .default false).result = .ok built ∧
      built.index.files = ["A.tsx", "b.ts"] ∧
      built.index.WellFiled .default pairTree "." ".tsx" ∧ built.stats.Counts built.index ∧
      ∃ stats after, Builds none .default pairTree "." .default false (.built built.index stats)
        after ∧ stats.Counts built.index := by
  have found : discovered pairTree "." .default = .ok ["A.tsx", "b.ts"] := by
    rw [discovered_of_directory rfl (FileTree.linkStat_here pairTree)]
    rfl
  have succeeded := build_textBuilt .default found readable_pairTree
  obtain ⟨sequential, scheduled⟩ :=
    @built_wellFiled .default pairTree "." .default wellNamed_pairTree ordered_pairTree
  obtain ⟨_, wellFiled, counts⟩ := sequential false _ succeeded
  obtain ⟨cacheHits, builds⟩ := exists_builds_sequential "." .default none .default pairTree
  rw [succeeded] at builds
  exact ⟨_, succeeded, rfl, wellFiled, counts, _, _, builds, (scheduled _ _ _ _ builds).2.2⟩

end Scan

end ImportAudit
