import ImportAudit.Proofs.Cache.Attribution
import ImportAudit.Proofs.FileTree.Growth
import ImportAudit.Proofs.ToolServer.Serving
import Mathlib.Data.List.Nodup

/-!
# Projects that grow

Files that are added to a project bring further imports and further declarations, and take nothing
away. So what was used is still used, and what is reported of the earlier files after they were
added was reported before, in the same order.
-/

namespace ImportAudit

/-! ## Declarations under their files -/

/-- The declarations of an index, each under the file that it is filed by. -/
def Index.filed (index : Index) : List Declaration :=
  index.files.flatMap fun file =>
    ((index.declarations.lookup file).getD []).map fun declared => { declared with file }

theorem Index.filed_unlabelled (index : Index) :
    index.filed.map (·.unlabelled) = index.declarationsInOrder.map (·.unlabelled) := by
  rw [filed, declarationsInOrder, List.map_flatMap, List.map_flatMap]
  refine List.flatMap_congr fun file _ => ?_
  rw [List.map_map]
  rfl

theorem Index.filed_names (index : Index) :
    index.filed.map (·.name) = index.declarationsInOrder.map (·.name) := by
  have names := congrArg (List.map (·.1)) index.filed_unlabelled
  rw [List.map_map, List.map_map] at names
  exact names

theorem Index.filed_eq (index : Index) :
    index.filed = index.files.flatMap fun file =>
      (((index.declarations.lookup file).map (·.map (·.unlabelled))).getD []).map
        fun (name, kind, line) => ⟨file, name, kind, line⟩ := by
  refine List.flatMap_congr fun file _ => ?_
  cases index.declarations.lookup file with
  | none => rfl
  | some declarations =>
    simp only [Option.getD_some, Option.map_some, List.map_map]
    rfl

theorem Index.Agrees.filed {left right : Index} (agrees : left.Agrees right) :
    left.filed = right.filed := by
  rw [Index.filed_eq, Index.filed_eq, agrees.files]
  exact List.flatMap_congr fun file _ => by rw [agrees.declarations]

namespace Usage

def unusedDeclarations (mode : MatchMode) (index : Index) : List Declaration :=
  index.filed.filter fun declared => !isUsed mode index.surface declared.name

def unusedComponents (mode : MatchMode) (index : Index) : List Component :=
  index.components.filter fun component => !isUsed mode index.surface component.name

/-- What is reported are the names of the unused declarations and components, in their order. -/
theorem findings_eq (mode : MatchMode) (index : Index) :
    findings mode index =
      ⟨(unusedDeclarations mode index).map (·.name),
        (unusedComponents mode index).map (·.name)⟩ := by
  rw [findings, unused, unused, ← Index.filed_names, List.filter_map, List.filter_map]
  rfl

end Usage

/-! ## Indexes that extend others -/

/-- An index knows all that another one knows: it has at least its specifiers, and under the files
of the other one the same declarations and components in the same order. -/
structure Index.Extends (later index : Index) : Prop where
  surface : index.surface ⊆ later.surface
  filed : later.filed.filter (·.file ∈ index.files) = index.filed
  components : later.components.filter (·.file ∈ index.files) = index.components

namespace Index.Extends

variable {later index : Index}

theorem isUsed
    (extend : later.Extends index) {mode : MatchMode} {name : String}
    (used : Usage.isUsed mode index.surface name = true) :
    Usage.isUsed mode later.surface name = true := by
  obtain ⟨specifier, member, found⟩ := List.any_eq_true.mp used
  exact List.any_eq_true.mpr ⟨specifier, extend.surface member, found⟩

/-- What is not used in the later index was not used before. -/
theorem unused_of_unused
    (extend : later.Extends index) {mode : MatchMode} {name : String}
    (unused : (!Usage.isUsed mode later.surface name) = true) :
    (!Usage.isUsed mode index.surface name) = true := by
  rw [Bool.not_eq_true'] at unused ⊢
  rw [Bool.eq_false_iff] at unused ⊢
  exact fun used => unused (extend.isUsed used)

theorem mem_filed
    (extend : later.Extends index) {declared : Declaration} (member : declared ∈ index.filed) :
    declared ∈ later.filed :=
  List.mem_of_mem_filter (extend.filed ▸ member)

theorem mem_components
    (extend : later.Extends index) {component : Component}
    (member : component ∈ index.components) : component ∈ later.components :=
  List.mem_of_mem_filter (extend.components ▸ member)

theorem unusedDeclarations_sublist (extend : later.Extends index) (mode : MatchMode) :
    ((Usage.unusedDeclarations mode later).filter (·.file ∈ index.files)).Sublist
      (Usage.unusedDeclarations mode index) := by
  rw [Usage.unusedDeclarations, List.filter_comm, extend.filed]
  exact List.monotone_filter_right _ fun _ => extend.unused_of_unused

theorem unusedComponents_sublist (extend : later.Extends index) (mode : MatchMode) :
    ((Usage.unusedComponents mode later).filter (·.file ∈ index.files)).Sublist
      (Usage.unusedComponents mode index) := by
  rw [Usage.unusedComponents, List.filter_comm, extend.components]
  exact List.monotone_filter_right _ fun _ => extend.unused_of_unused

end Index.Extends

/-! ## What an index is about -/

/-- The index holds what the texts of its files say, and the components among them. -/
structure Index.Records (index : Index) (settings : Extraction.Settings) (tree : FileTree)
    (root : String) : Prop extends index.Reflects settings tree root where
  filed : index.filed = index.files.flatMap fun file =>
    (Extraction.ofSource settings file (tree.textAt root file)).declarations
  components : index.components = (Catalog.ofFiles index.files "").components

theorem Index.Records.of_agrees
    {index other : Index} {settings : Extraction.Settings} {tree : FileTree} {root : String}
    (records : other.Records settings tree root) (agrees : index.Agrees other) :
    index.Records settings tree root where
  toReflects := records.toReflects.of_agrees agrees
  filed := by rw [agrees.filed, records.filed, agrees.files]
  components := by rw [agrees.components, records.components, agrees.files]

section Assembled

variable {settings : Extraction.Settings} {tree : FileTree} {root : String}

theorem Scan.assemble_records
    {files : List String}
    (readable : ∀ file ∈ files, (tree.textAt? root file).isSome = true) :
    (assemble root "" files (textResults settings tree root files)).Records settings tree root where
  toReflects := assemble_reflects readable ""
  filed := by
    refine List.flatMap_congr fun file (member : file ∈ files) => ?_
    rw [lookup_assembled settings tree root "" member]
    refine (List.map_congr_left fun declared inText => ?_).trans (List.map_id _)
    rw [← (Extraction.ofSource_labelledBy settings file _).declarations declared inText]
    rfl
  components := rfl

/-- Of a list without duplicates, the members of a sublist are the sublist. -/
theorem filter_mem_of_sublist
    {kept whole : List String} (sublist : kept.Sublist whole) (once : whole.Nodup) :
    whole.filter (· ∈ kept) = kept := by
  induction sublist with
  | slnil => rfl
  | @cons kept rest first sublist inductionHypothesis =>
    obtain ⟨absent, restOnce⟩ := List.nodup_cons.mp once
    have notKept : first ∉ kept := fun member => absent (sublist.subset member)
    rw [List.filter_cons_of_neg (by simpa using notKept), inductionHypothesis restOnce]
  | @cons_cons kept rest first sublist inductionHypothesis =>
    obtain ⟨absent, restOnce⟩ := List.nodup_cons.mp once
    rw [List.filter_cons_of_pos (by simp)]
    congr 1
    refine (List.filter_congr fun other member => ?_).trans (inductionHypothesis restOnce)
    have differs : other ≠ first := by
      rintro rfl
      exact absent member
    simp [differs]

/-- What comes from some of the files is what those files bring. -/
theorem filter_flatMap_of_labelled
    {α : Type} {label : α → String} {brought : String → List α}
    (labelled : ∀ file, ∀ item ∈ brought file, label item = file) (files kept : List String) :
    (files.flatMap brought).filter (label · ∈ kept) =
      (files.filter (· ∈ kept)).flatMap brought := by
  induction files with
  | nil => rfl
  | cons file others inductionHypothesis =>
    rw [List.flatMap_cons, List.filter_append, inductionHypothesis]
    by_cases listed : file ∈ kept
    · rw [List.filter_cons_of_pos (by simpa using listed), List.flatMap_cons]
      congr 1
      refine List.filter_eq_self.mpr fun item member => ?_
      simpa [labelled file item member] using listed
    · rw [List.filter_cons_of_neg (by simpa using listed)]
      refine (congrArg (· ++ _) (List.filter_eq_nil_iff.mpr fun item member => ?_)).trans
        (List.nil_append _)
      simpa [labelled file item member] using listed

/-- An index of more files, which has the same texts of the files of another one, extends it. -/
theorem Index.Records.extends_of_sublist
    {index later : Index} {laterTree : FileTree} (records : index.Records settings tree root)
    (laterRecords : later.Records settings laterTree root)
    (sameText : ∀ file ∈ index.files, laterTree.textAt root file = tree.textAt root file)
    (sublist : index.files.Sublist later.files) (once : later.files.Nodup) :
    later.Extends index where
  surface := by
    intro specifier member
    rw [records.surface] at member
    obtain ⟨file, listed, inFile⟩ := List.mem_flatMap.mp member
    rw [laterRecords.surface]
    refine List.mem_flatMap.mpr ⟨file, sublist.subset listed, ?_⟩
    rw [sameText file listed]
    exact inFile
  filed := by
    -- What is read from a text is labelled by its file, so the label tells the files apart.
    have labelled : ∀ file, ∀ declared ∈
        (Extraction.ofSource settings file (laterTree.textAt root file)).declarations,
          declared.file = file :=
      fun file => (Extraction.ofSource_labelledBy settings file _).declarations
    rw [laterRecords.filed, filter_flatMap_of_labelled labelled,
      filter_mem_of_sublist sublist once, records.filed]
    exact List.flatMap_congr fun file listed => by rw [sameText file listed]
  components := by
    have kept := filter_mem_of_sublist sublist once
    rw [laterRecords.components, records.components, Catalog.ofFiles, Catalog.ofFiles,
      List.filter_map]
    refine congrArg (List.map Component.ofFile) ((List.filter_comm _ _ _).trans ?_)
    exact congrArg (List.filter _) kept

end Assembled

namespace FileTree

/-- The text of a file stays when the tree grows. -/
theorem textAt?_grown
    {tree later : FileTree} {root file source : String} (grows : tree.GrowsInto later)
    (text : tree.textAt? root file = some source) : later.textAt? root file = some source := by
  obtain ⟨content, read, decoded⟩ := Option.bind_eq_some_iff.mp text
  rw [textAt?, read_grown grows (ok_of_toOption read)]
  exact decoded

end FileTree

namespace Project

/-! ## Audits before and after -/

section Audited

variable {tree : FileTree} {trees : List FileTree} {project : String} {request : Request}
  {options : Options} {cache : Option Cache.Result} {cancelled : Bool} {audit : Audit}

/-- What a successful audit goes by, if its cache was read from trees in which size and time tell
contents apart. -/
theorem records_of_findUnused
    (resolved : request.resolve = .ok options)
    (sincere : Scan.Sincere options.markers trees cache) (determined : Determined (tree :: trees))
    (succeeded : (findUnused cache tree project request cancelled).result = .ok audit) :
    ∃ files, Scan.discovered tree (sourceFolder project) ⟨options.exclude, options.workers, ""⟩ =
        .ok files ∧ audit.index.files = files ∧
      audit.index.Records options.extraction tree (sourceFolder project) ∧
        audit.findings = Usage.findings options.matchMode audit.index := by
  obtain ⟨built, scanned, sameIndex, sameFindings⟩ :=
    exists_built_of_findUnused resolved succeeded
  have uncancelled := Scan.build_of_cancelled scanned
  have endsLike : (Scan.Verdict.of 0 (indexWith cache tree project options false).result).EndsLike
      (indexWith none tree project options false).result :=
    (Scan.build_of_sincere sincere determined (Request.resolve_named resolved)).1
  rw [indexWith, uncancelled] at endsLike
  cases fresh : (indexWith none tree project options false).result with
  | error fault =>
    rw [fresh] at endsLike
    cases endsLike
  | ok scan =>
    rw [fresh] at endsLike
    have agrees : built.index.Agrees scan.index := endsLike
    obtain ⟨files, found, readable, assembled⟩ := Scan.build_assembled fresh
    have records : scan.index.Records options.extraction tree (sourceFolder project) := by
      rw [assembled]
      exact Scan.assemble_records readable
    refine ⟨files, found, ?_, ?_, ?_⟩
    · rw [sameIndex, agrees.files, assembled]
      rfl
    · rw [sameIndex]
      exact records.of_agrees agrees
    · rw [sameFindings, sameIndex]

/-- Files that are added to a project never make a used name unused. Of two audits, the second one
of a tree into which the first one's has grown, the second has every declaration and every
component of the first, and uses it if the first does. What the second reports of the files of the
first, the first reports as well, in the same order. The findings of both are the names of what
they leave unused. Each audit may have a cache of its own, as long as it was read from trees in
which size and time tell contents apart. -/
theorem findUnused_grown
    {later : FileTree} {laterTrees : List FileTree} {laterCache : Option Cache.Result}
    {laterCancelled : Bool} {grown : Audit} (grows : tree.GrowsInto later)
    (ordered : tree.top.Ordered) (laterOrdered : later.top.Ordered)
    (laterNamed : later.top.WellNamed) (resolved : request.resolve = .ok options)
    (sincere : Scan.Sincere options.markers trees cache) (determined : Determined (tree :: trees))
    (laterSincere : Scan.Sincere options.markers laterTrees laterCache)
    (laterDetermined : Determined (later :: laterTrees))
    (succeeded : (findUnused cache tree project request cancelled).result = .ok audit)
    (laterSucceeded :
      (findUnused laterCache later project request laterCancelled).result = .ok grown) :
    (∀ declared ∈ audit.index.filed, declared ∈ grown.index.filed ∧
      (Usage.isUsed options.matchMode audit.index.surface declared.name = true →
        Usage.isUsed options.matchMode grown.index.surface declared.name = true)) ∧
    (∀ component ∈ audit.index.components, component ∈ grown.index.components ∧
      (Usage.isUsed options.matchMode audit.index.surface component.name = true →
        Usage.isUsed options.matchMode grown.index.surface component.name = true)) ∧
    ((Usage.unusedDeclarations options.matchMode grown.index).filter
      (·.file ∈ audit.index.files)).Sublist
        (Usage.unusedDeclarations options.matchMode audit.index) ∧
    ((Usage.unusedComponents options.matchMode grown.index).filter
      (·.file ∈ audit.index.files)).Sublist
        (Usage.unusedComponents options.matchMode audit.index) ∧
    ∀ done ∈ [audit, grown],
      done.index.filed.map (·.unlabelled) =
        done.index.declarationsInOrder.map (·.unlabelled) ∧
      done.findings =
        ⟨(Usage.unusedDeclarations options.matchMode done.index).map (·.name),
          (Usage.unusedComponents options.matchMode done.index).map (·.name)⟩ := by
  obtain ⟨files, found, isFiles, records, findings⟩ :=
    records_of_findUnused resolved sincere determined succeeded
  obtain ⟨laterFiles, laterFound, isLaterFiles, laterRecords, laterFindings⟩ :=
    records_of_findUnused resolved laterSincere laterDetermined laterSucceeded
  obtain ⟨sameFiles, foundLater, sublist⟩ :=
    Discovery.files_grown grows ordered laterOrdered found
  have isSame : sameFiles = laterFiles := Except.ok.inj (foundLater.symm.trans laterFound)
  rw [isSame, ← isFiles, ← isLaterFiles] at sublist
  have once : grown.index.files.Nodup := by
    rw [isLaterFiles]
    exact Discovery.nodup_files laterNamed laterOrdered laterFound
  have sameText : ∀ file ∈ audit.index.files,
      later.textAt (sourceFolder project) file = tree.textAt (sourceFolder project) file := by
    intro file listed
    obtain ⟨source, text⟩ := Option.isSome_iff_exists.mp (records.readable file listed)
    rw [FileTree.textAt_eq text, FileTree.textAt_eq (FileTree.textAt?_grown grows text)]
  have extend := records.extends_of_sublist laterRecords sameText sublist once
  refine ⟨fun declared member => ⟨extend.mem_filed member, extend.isUsed⟩,
    fun component member => ⟨extend.mem_components member, extend.isUsed⟩,
    extend.unusedDeclarations_sublist _, extend.unusedComponents_sublist _, ?_⟩
  intro done isOne
  refine ⟨done.index.filed_unlabelled, ?_⟩
  rcases List.mem_pair.mp isOne with rfl | rfl
  · rw [findings, Usage.findings_eq]
  · rw [laterFindings, Usage.findings_eq]

end Audited

/-! ## One file added -/

def secondSource : FileTree :=
  ⟨[("src", .directory [("a.ts", .file twoLines.toUTF8 0),
    ("b.ts", .file "import A from './a'".toUTF8 0)])]⟩

theorem put_secondSource :
    (oneSource twoLines.toUTF8).put ["src", "b.ts"] (.file "import A from './a'".toUTF8 0) =
      secondSource := by
  have before : ¬ "b.ts" < "a.ts" := by decide
  simp [FileTree.put, FileTree.putEntries, FileTree.insertEntry, oneSource, secondSource,
    Node.entries, before]

theorem growsInto_secondSource : (oneSource twoLines.toUTF8).GrowsInto secondSource := by
  rw [← put_secondSource]
  apply FileTree.growsInto_put
  · change FileTree.Open _ (["src"] ++ ["b.ts"])
    exact FileTree.open_of_free rfl rfl
  · rfl

theorem textAt?_secondSource :
    secondSource.textAt? (sourceFolder ".") "b.ts" = some "import A from './a'" :=
  textAt?_source ⟨⟨by decide, by decide, by decide⟩, by decide⟩ rfl

theorem exists_audit_secondSource :
    ∃ grown, (findUnused none secondSource "." .default false).result = .ok grown := by
  have discovered : Scan.discovered secondSource (sourceFolder ".") ⟨[], 0, ""⟩ =
      .ok ["a.ts", "b.ts"] := by
    have sources : FileTree.nodeAt? secondSource.top ["src"] =
        some (.directory [("a.ts", .file twoLines.toUTF8 0),
          ("b.ts", .file "import A from './a'".toUTF8 0)]) := rfl
    rw [discovered_source sources]
    rfl
  have first := FileTree.textAt?_grown growsInto_secondSource (textAt?_oneSource twoLines)
  have readable : ∀ job ∈ Scan.jobsOf (sourceFolder ".") ["a.ts", "b.ts"],
      (secondSource.textAt? (sourceFolder ".") job.file).isSome = true := by
    rw [← List.forall_mem_map (f := fun job : Scan.Job => job.file)
      (P := fun file => (secondSource.textAt? (sourceFolder ".") file).isSome = true),
      Scan.jobsOf_files]
    simp [first, textAt?_secondSource]
  obtain ⟨built, succeeded, _⟩ := Scan.build_of_readable .default discovered readable
  have scanned : (indexWith none secondSource "."
      ⟨.line, .substring, Marker.defaults, [], 0⟩ false).result = .ok built := succeeded
  refine ⟨⟨built.index, built.stats, Usage.findings .substring built.index⟩, ?_⟩
  simp only [findUnused, Request.resolve_default, scanned]
  rfl

theorem wellNamed_secondSource : secondSource.top.WellNamed := by
  decide

/-- A second file leaves nothing unused in the first one that was used. -/
theorem findUnused_grown_secondSource :
    ∃ audit grown,
      (findUnused none (oneSource twoLines.toUTF8) "." .default false).result = .ok audit ∧
      (findUnused none secondSource "." .default false).result = .ok grown ∧
      ((Usage.unusedDeclarations .substring grown.index).filter
        (·.file ∈ audit.index.files)).Sublist
          (Usage.unusedDeclarations .substring audit.index) := by
  obtain ⟨audit, succeeded, _⟩ := exists_audit_oneSource twoLines
  obtain ⟨grown, laterSucceeded⟩ := exists_audit_secondSource
  have ordered : (oneSource twoLines.toUTF8).top.Ordered := by
    simp [oneSource, FileTree.top, Node.Ordered, EntriesOrdered]
  have laterOrdered : secondSource.top.Ordered := by
    have before : "a.ts" < "b.ts" := by decide
    exact ⟨List.forall_mem_nil _, ⟨List.forall_mem_singleton.mpr before, trivial,
      List.forall_mem_nil _, trivial, trivial⟩, trivial⟩
  have uncached : Scan.Sincere Marker.defaults [] none := by
    intro held same
    cases same
  have settled := findUnused_grown growsInto_secondSource ordered laterOrdered
    wellNamed_secondSource Request.resolve_default uncached
    (ToolServer.determined_singleton _) uncached (ToolServer.determined_singleton _) succeeded
    laterSucceeded
  exact ⟨audit, grown, succeeded, laterSucceeded, settled.2.2.1⟩

end Project

end ImportAudit
