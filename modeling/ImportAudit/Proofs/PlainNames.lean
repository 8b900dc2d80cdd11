import ImportAudit.Project
import ImportAudit.Proofs.Declaration
import ImportAudit.Proofs.FileTree.Writing
import ImportAudit.Proofs.Scan.Contents
import ImportAudit.Proofs.Text.Bytes

/-!
# Plainly written names

An audit is right about plainly written names: one that some import header names is not reported,
and one that occurs in no specifier is reported once for each line that declares it and once for
each component file that is called by it.
-/

namespace ImportAudit.Usage

open ImportAudit.Import.Header (Name)

theorem not_mem_unused
    {mode : MatchMode} {surface : List String} {name : String}
    (used : isUsed mode surface name = true) (names : List String) :
    name ∉ unused mode surface names := by
  intro member
  have notUsed := (List.mem_filter.mp member).2
  rw [used] at notUsed
  cases notUsed

theorem count_unused
    {mode : MatchMode} {surface : List String} {name : String}
    (notUsed : isUsed mode surface name = false) (names : List String) :
    (unused mode surface names).count name = names.count name :=
  List.count_filter (by rw [notUsed]; rfl)

theorem isUsed_of_standsIn
    (name : Name) {surface : List String} {specifier : List Char}
    (named : String.ofList specifier ∈ surface) (stands : StandsIn name.text specifier)
    (mode : MatchMode) : isUsed mode surface name.string = true := by
  have nonempty : name.string ≠ "" := by
    intro empty
    refine name.ne_nil ?_
    have same : name.string.toList = name.text := String.toList_ofList
    rw [← same, empty]
    rfl
  refine List.any_eq_true.mpr ⟨String.ofList specifier, named, ?_⟩
  refine matches_of_standsIn nonempty ?_ ?_ mode
  · intro c member
    rw [Name.string, String.toList_ofList] at member
    exact (name.word c member).1
  · rw [Name.string, String.toList_ofList, String.toList_ofList]
    exact stands

theorem not_isUsed_of_absent
    {surface : List String} {name : String}
    (absent : ∀ specifier ∈ surface, Text.contains specifier name = false) (mode : MatchMode) :
    isUsed mode surface name = false := by
  rw [isUsed, List.any_eq_false]
  intro specifier member used
  have contained := contains_of_matches used
  rw [absent specifier member] at contained
  cases contained

end ImportAudit.Usage

namespace ImportAudit.Project

open ImportAudit.Import.Header (Name Statement Opens isPlainName)
open ImportAudit.Declaration (declaredName? opensWith declaresOtherwise)

/-- Whether a file is one of those whose declarations are read. -/
def isDeclaring (file : String) : Bool :=
  Text.endsWith ".ts".toList file.toList

def isComponentOf (name : String) (file : String) : Bool :=
  Text.endsWith ".tsx".toList file.toList && Component.stem file == name

/-- The lines of a file of the project; one that cannot be read has the lines of an empty one. -/
def linesAt (tree : FileTree) (project file : String) : List (List Char) :=
  Source.lines (tree.textAt (sourceFolder project) file).toList

/-- One of the files starts with an import header that has the name. -/
def Imports (tree : FileTree) (project : String) (files : List String) (name : Name) : Prop :=
  ∃ file ∈ files, ∃ source, tree.textAt? (sourceFolder project) file = some source ∧
    ∃ statements, Opens statements source.toList ∧
      ∃ statement ∈ statements, name.text ∈ statement.clause.names

/-- No specifier of the files has the name in it. -/
def Ignores (mode : ParseMode) (tree : FileTree) (project : String) (files : List String)
    (name : Name) : Prop :=
  ∀ file ∈ files, ∀ source, tree.textAt? (sourceFolder project) file = some source →
    ∀ specifier ∈ importNames mode source, Text.contains specifier name.string = false

/-- The declarations of an index are those of the lines of its declaring files. -/
theorem declarations_eq
    {index : Index} {mode : ParseMode} {tree : FileTree} {project : String}
    (reflects : index.Reflects (.ofMode Marker.defaults mode) tree (sourceFolder project)) :
    index.declarationsInOrder.map (·.name) =
      (index.files.filter isDeclaring).flatMap fun file =>
        (linesAt tree project file).filterMap declaredName? := by
  rw [reflects.declared]
  induction index.files with
  | nil => rfl
  | cons file others inductionHypothesis =>
    have scans : (Extraction.Settings.ofMode Marker.defaults mode).scansDeclarations file =
        isDeclaring file :=
      scansDeclarations_ofMode Marker.defaults mode file
    rw [List.flatMap_cons, inductionHypothesis]
    by_cases declaring : isDeclaring file = true
    · rw [List.filter_cons_of_pos declaring, List.flatMap_cons]
      simp only [Extraction.ofSource, scans, declaring, if_true]
      exact congrArg (· ++ _) (Declaration.inLines_names file 1 _)
    · rw [List.filter_cons_of_neg declaring]
      simp [Extraction.ofSource, scans, declaring]

theorem count_declarations
    {index : Index} {mode : ParseMode} {tree : FileTree} {project : String}
    (reflects : index.Reflects (.ofMode Marker.defaults mode) tree (sourceFolder project))
    (name : Name) :
    (index.declarationsInOrder.map (·.name)).count name.string =
      ((index.files.filter isDeclaring).map fun file =>
        (linesAt tree project file).countP (opensWith name) +
          (linesAt tree project file).countP (declaresOtherwise name)).sum := by
  rw [declarations_eq reflects, List.count_flatMap]
  refine congrArg List.sum (List.map_congr_left fun file _ => ?_)
  exact Declaration.count_declared name (linesAt tree project file)

theorem count_components
    {index : Index} (components : index.components = (Catalog.ofFiles index.files "").components)
    (name : String) :
    (index.components.map (·.name)).count name = index.files.countP (isComponentOf name) := by
  have extension : Catalog.extensionOrDefault "" = ".tsx" := rfl
  rw [components, Catalog.ofFiles, extension, List.map_map, List.count, List.countP_map,
    List.countP_filter]
  refine List.countP_congr fun file _ => ?_
  simp [isComponentOf, Component.ofFile, and_comm]

section Reflected

variable {index : Index} {mode : ParseMode} {tree : FileTree} {project : String} {name : Name}

theorem isUsed_of_imports
    (reflects : index.Reflects (.ofMode Marker.defaults mode) tree (sourceFolder project))
    (imports : Imports tree project index.files name) (matchMode : MatchMode) :
    Usage.isUsed matchMode index.surface name.string = true := by
  obtain ⟨file, member, source, text, statements, opens, statement, isStatement, named⟩ := imports
  obtain ⟨specifier, isSpecifier, stands⟩ := statement.clause.standsIn named
  refine Usage.isUsed_of_standsIn name ?_ stands matchMode
  rw [reflects.surface]
  refine List.mem_flatMap.mpr ⟨file, member, ?_⟩
  rw [FileTree.textAt_eq text]
  exact Import.Header.mem_importNames opens isStatement isSpecifier _

theorem not_isUsed_of_ignores
    (reflects : index.Reflects (.ofMode Marker.defaults mode) tree (sourceFolder project))
    (ignores : Ignores mode tree project index.files name) (matchMode : MatchMode) :
    Usage.isUsed matchMode index.surface name.string = false := by
  refine Usage.not_isUsed_of_absent ?_ matchMode
  rw [reflects.surface]
  intro specifier extracted
  obtain ⟨file, member, inFile⟩ := List.mem_flatMap.mp extracted
  obtain ⟨source, text⟩ := Option.isSome_iff_exists.mp (reflects.readable file member)
  rw [FileTree.textAt_eq text] at inFile
  exact ignores file member source text specifier inFile

end Reflected

section Audited

variable {cache : Option Cache.Result} {tree : FileTree} {project : String} {request : Request}
  {options : Options} {cancelled : Bool} {audit : Audit}

theorem Request.resolve_named
    (resolved : request.resolve = .ok options) : options.parseMode.Named := by
  unfold Request.resolve at resolved
  cases parsed : ParseMode.parse request.parseMode with
  | error fault =>
    rw [parsed] at resolved
    cases resolved
  | ok parseMode =>
    cases matched : MatchMode.parse request.matchMode with
    | error fault =>
      rw [parsed, matched] at resolved
      cases resolved
    | ok matchMode =>
      rw [parsed, matched] at resolved
      cases resolved
      exact ParseMode.named_of_parse parsed

theorem exists_built_of_findUnused
    (resolved : request.resolve = .ok options)
    (succeeded : (findUnused cache tree project request cancelled).result = .ok audit) :
    ∃ built, (indexWith cache tree project options cancelled).result = .ok built ∧
      audit.index = built.index ∧
        audit.findings = Usage.findings options.matchMode built.index := by
  unfold findUnused at succeeded
  rw [resolved] at succeeded
  change (indexWith cache tree project options cancelled).result.map _ = _ at succeeded
  cases scanned : (indexWith cache tree project options cancelled).result with
  | error fault =>
    rw [scanned] at succeeded
    cases succeeded
  | ok built =>
    rw [scanned] at succeeded
    cases succeeded
    exact ⟨built, rfl, rfl, rfl⟩

/-- What a successful audit goes by. -/
theorem reflects_of_findUnused
    (resolved : request.resolve = .ok options) (defaultMarkers : options.markers = Marker.defaults)
    (usable : Scan.Usable Marker.defaults tree (sourceFolder project) cache)
    (succeeded : (findUnused cache tree project request cancelled).result = .ok audit) :
    audit.index.Reflects (.ofMode Marker.defaults options.parseMode) tree (sourceFolder project) ∧
      audit.index.components = (Catalog.ofFiles audit.index.files "").components ∧
        audit.findings = Usage.findings options.matchMode audit.index := by
  obtain ⟨built, scanned, sameIndex, sameFindings⟩ :=
    exists_built_of_findUnused resolved succeeded
  have settings : options.extraction = .ofMode Marker.defaults options.parseMode := by
    rw [Options.extraction, defaultMarkers]
    rfl
  have components := Scan.build_components scanned
  rw [indexWith, settings] at scanned
  rw [sameIndex, sameFindings]
  exact ⟨Scan.reflects_of_usable usable (Request.resolve_named resolved) scanned, components, rfl⟩

end Audited

/-! ## A project of one file -/

theorem isName_src : Path.IsName "src" :=
  ⟨⟨by decide, by decide, by decide⟩, by decide⟩

/-- A file right among the sources of the working directory is read by its name. -/
theorem read_source
    {tree : FileTree} {file : String} {content : ByteArray} {modified : Int}
    (isName : Path.IsName file)
    (found : FileTree.nodeAt? tree.top ["src", file] = some (.file content modified)) :
    tree.read (Path.join [sourceFolder ".", file]) = .ok content := by
  have names : ∀ name ∈ ["src", file], Path.IsName name :=
    List.forall_mem_cons.mpr ⟨isName_src, List.forall_mem_singleton.mpr isName⟩
  have joined : Path.join ["src", file] = Path.below ["src", file] := by
    have whole := Path.join_below (List.forall_mem_singleton.mpr isName) "src"
    rw [Path.below_singleton isName] at whole
    exact whole
  have folder : sourceFolder "." = "src" := by decide +kernel
  rw [folder, joined, FileTree.read_of_nodeAt? names (List.cons_ne_nil _ _) found]

/-- All source files below the sources of the working directory are found. -/
theorem discovered_source
    {tree : FileTree} {entries : List (String × Node)}
    (sources : FileTree.nodeAt? tree.top ["src"] = some (.directory entries)) :
    Scan.discovered tree (sourceFolder ".") ⟨[], 0, ""⟩ =
      .ok (Discovery.filesAmong ⟨Discovery.sourceExtensions, []⟩ [] entries) := by
  have folder : sourceFolder "." = Path.below ["src"] := by decide +kernel
  refine Scan.discovered_of_directory rfl ?_
  rw [folder]
  exact FileTree.linkStat_of_nodeAt? (List.forall_mem_singleton.mpr isName_src) (by decide) sources

theorem textAt?_source
    {tree : FileTree} {file text : String} {modified : Int} (isName : Path.IsName file)
    (found : FileTree.nodeAt? tree.top ["src", file] = some (.file text.toUTF8 modified)) :
    tree.textAt? (sourceFolder ".") file = some text := by
  rw [FileTree.textAt?, read_source isName found]
  exact Text.fromUTF8?_toUTF8 text

def oneSource (content : ByteArray) : FileTree :=
  ⟨[("src", .directory [("a.ts", .file content 0)])]⟩

theorem textAt?_oneSource (text : String) :
    (oneSource text.toUTF8).textAt? (sourceFolder ".") "a.ts" = some text :=
  textAt?_source ⟨⟨by decide, by decide, by decide⟩, by decide⟩ rfl

theorem discovered_oneSource (content : ByteArray) :
    Scan.discovered (oneSource content) (sourceFolder ".") ⟨[], 0, ""⟩ = .ok ["a.ts"] := by
  have sources : FileTree.nodeAt? (oneSource content).top ["src"] =
      some (.directory [("a.ts", .file content 0)]) := rfl
  rw [discovered_source sources]
  rfl

theorem Request.resolve_default :
    Request.default.resolve = .ok ⟨.line, .substring, Marker.defaults, [], 0⟩ := by
  decide +kernel

theorem exists_audit_oneSource (text : String) :
    ∃ audit, (findUnused none (oneSource text.toUTF8) "." .default false).result = .ok audit ∧
      audit.index.files = ["a.ts"] := by
  obtain ⟨built, succeeded, assembled⟩ := Scan.build_of_text .default
    (discovered_oneSource text.toUTF8) (textAt?_oneSource text)
  refine ⟨⟨built.index, built.stats, Usage.findings .substring built.index⟩, ?_, ?_⟩
  · have scanned : (indexWith none (oneSource text.toUTF8) "."
        ⟨.line, .substring, Marker.defaults, [], 0⟩ false).result = .ok built := succeeded
    simp only [findUnused, Request.resolve_default, scanned]
    rfl
  · rw [assembled]
    rfl

def twoLines : String := "import B from 'm'\nexport type A = B"

theorem isPlainName_A : isPlainName "A".toList = true := by
  decide

theorem isPlainName_B : isPlainName "B".toList = true := by
  decide

def nameA : Name := ⟨"A".toList, isPlainName_A⟩

def nameB : Name := ⟨"B".toList, isPlainName_B⟩

def importsB : Statement :=
  ⟨.single nameB, '\'', "m".toList, false, Or.inl rfl, by simp⟩

end ImportAudit.Project
