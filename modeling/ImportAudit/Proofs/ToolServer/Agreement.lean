import ImportAudit.Proofs.ToolServer.Serving

/-!
# Tools that agree

The tools reach their answers by different ways: a list of components, a search by name, a search
for all unused names, each on a scan of its own. About one tree they agree, whatever the server
was asked before: which components there are, in which files, and whether they are used.
-/

namespace ImportAudit.ToolServer

/-! ## Scans for calls -/

section Calls

variable {config : Config} {cache : Option Cache.Result} {tree : FileTree}

/-- What the scan for a call without a project and without modes brings. -/
def scanned (config : Config) (cache : Option Cache.Result) (tree : FileTree) :
    Except Fault (String × Scan.Built) :=
  match projectOf config tree [] with
  | .error fault => .error fault
  | .ok project =>
    (scanFault (Project.index cache tree project config.request false).result).map fun built =>
      (project, built)

/-- Arguments that name neither a project nor a mode. -/
structure Unspecific (arguments : Arguments) : Prop where
  project : arguments.lookup "project" = none
  matchMode : arguments.lookup "match_mode" = none
  parseMode : arguments.lookup "parse_mode" = none

theorem unspecific_nil : Unspecific [] :=
  ⟨rfl, rfl, rfl⟩

theorem unspecific_name (name : String) : Unspecific [("name", .string name)] :=
  ⟨rfl, rfl, rfl⟩

theorem Unspecific.projectOf_eq
    {arguments : Arguments} (unspecific : Unspecific arguments) :
    projectOf config tree arguments = projectOf config tree [] := by
  unfold projectOf Arguments.text
  rw [unspecific.project]
  rfl

theorem Unspecific.requestOf_eq
    {arguments : Arguments} (unspecific : Unspecific arguments) :
    requestOf config arguments = .ok config.request := by
  have noMatchMode : arguments.text "match_mode" "" = "" := by
    rw [Arguments.text, unspecific.matchMode]
  have noParseMode : arguments.text "parse_mode" "" = "" := by
    rw [Arguments.text, unspecific.parseMode]
  simp only [requestOf, modeOf, noMatchMode, noParseMode, if_true]

/-- The index of a call without particulars is that of the configured project. -/
theorem indexOf_result
    {arguments : Arguments} (unspecific : Unspecific arguments) :
    (indexOf config cache tree arguments).result =
      (scanned config cache tree).map fun (_, built) => built.index := by
  cases named : projectOf config tree [] with
  | error fault =>
    simp only [indexOf, withScan, unspecific.projectOf_eq, scanned, named]
    rfl
  | ok project =>
    simp only [indexOf, withScan, unspecific.projectOf_eq, unspecific.requestOf_eq, scanned, named]
    cases (Project.index cache tree project config.request false).result <;> rfl

theorem listComponents_result :
    (answer config cache tree .listComponents []).result =
      (scanned config cache tree).map fun (_, built) =>
        .array (((catalogOf built.index).search "").map componentResponse) := by
  rw [answer]
  simp only [Answer.follow, indexOf_result unspecific_nil]
  cases scanned config cache tree <;> rfl

theorem getComponent_result {name : String} (named : name ≠ "") :
    (answer config cache tree .getComponent [("name", .string name)]).result =
      (scanned config cache tree).bind fun (_, built) =>
        namedResponse config built.index name := by
  have given : Arguments.text [("name", .string name)] "name" "" = name := rfl
  simp only [answer, getComponent, given, if_neg named, Answer.follow,
    indexOf_result (unspecific_name name)]
  cases scanned config cache tree <;> rfl

/-- The search for unused names goes on from the same scan, with the mode of the request. -/
theorem findUnused_eq
    (cache : Option Cache.Result) (tree : FileTree) (project : String)
    (request : Project.Request) :
    (Project.findUnused cache tree project request false).result =
      (Project.index cache tree project request false).result.bind fun built =>
        request.resolve.map fun options =>
          ⟨built.index, built.stats, Usage.findings options.matchMode built.index⟩ := by
  unfold Project.findUnused Project.index
  cases request.resolve with
  | error fault => rfl
  | ok options =>
    dsimp only
    cases (Project.indexWith cache tree project options false).result <;> rfl

/-- A search without particulars reports the findings of the configured project. -/
theorem findUnused_result :
    (answer config cache tree .findUnused []).result =
      (scanned config cache tree).bind fun (project, built) =>
        (scanFault (config.request.resolve.map fun options =>
          ⟨built.index, built.stats, Usage.findings options.matchMode built.index⟩)).map
            fun audit => unusedResponse project audit "" := by
  have unasked : Arguments.isTrue [] "write_report" = false := rfl
  cases named : projectOf config tree [] with
  | error fault =>
    simp only [answer, findUnused, Answer.follow, withScan, scanned, named]
    rfl
  | ok project =>
    simp only [answer, findUnused, Answer.follow, withScan, scanned, named,
      unspecific_nil.requestOf_eq, unasked, Bool.false_eq_true, if_false, findUnused_eq]
    cases (Project.index cache tree project config.request false).result with
    | error fault => rfl
    | ok built => cases config.request.resolve <;> rfl

theorem scanned_eq
    {project : String} (named : projectOf config tree [] = .ok project)
    {options : Project.Options} (resolved : config.request.resolve = .ok options) :
    scanned config cache tree =
      (scanFault (Project.indexWith cache tree project options false).result).map fun built =>
        (project, built) := by
  simp only [scanned, named, Project.index, resolved]

end Calls

/-- The scans for all calls about one tree fail, or they find the same project and indexes that
agree. -/
theorem scanned_cases (config : Config) (tree : FileTree) :
    (∀ cache, Ready config tree cache → ∃ fault, scanned config cache tree = .error fault) ∨
      ∃ options project index, config.request.resolve = .ok options ∧
        ∀ cache, Ready config tree cache → ∃ built,
          scanned config cache tree = .ok (project, built) ∧ built.index.Agrees index := by
  cases named : projectOf config tree [] with
  | error fault =>
    refine Or.inl fun cache _ => ⟨fault, ?_⟩
    simp only [scanned, named]
  | ok project =>
    cases resolved : config.request.resolve with
    | error fault =>
      refine Or.inl fun cache _ => ⟨.during .toolScan fault, ?_⟩
      simp only [scanned, named, Project.index, resolved]
      rfl
    | ok options =>
      cases fresh : (Project.indexWith none tree project options false).result with
      | error fault =>
        refine Or.inl fun cache ready => ?_
        have endsLike := ready.endsLike resolved project
        rw [fresh] at endsLike
        cases result : (Project.indexWith cache tree project options false).result with
        | error other =>
          refine ⟨.during .toolScan other, ?_⟩
          rw [scanned_eq named resolved, result]
          rfl
        | ok built =>
          rw [result] at endsLike
          cases endsLike
      | ok scan =>
        refine Or.inr ⟨options, project, scan.index, rfl, fun cache ready => ?_⟩
        have endsLike := ready.endsLike resolved project
        rw [fresh] at endsLike
        cases result : (Project.indexWith cache tree project options false).result with
        | error other =>
          rw [result] at endsLike
          cases endsLike
        | ok built =>
          rw [result] at endsLike
          refine ⟨built, ?_, endsLike⟩
          rw [scanned_eq named resolved, result]
          rfl

/-! ## Responses -/

/-- The entries of a listing that have the name; a call that failed lists none. -/
def entriesNamed (name : String) (listed : Except Fault Json) : List Json :=
  match listed with
  | .ok (.array entries) => entries.filter fun entry => textParameter entry "name" == name
  | _ => []

theorem entriesNamed_components (name : String) (components : List Component) :
    entriesNamed name (.ok (.array (components.map componentResponse))) =
      (components.filter (·.name == name)).map componentResponse := by
  rw [entriesNamed, List.filter_map]
  rfl

theorem files_components (components : List Component) :
    (components.map componentResponse).map (parameter? · "file") =
      (components.map (·.file)).map fun file => some (.string file) := by
  rw [List.map_map, List.map_map]
  rfl

theorem search_all (catalog : Catalog) : catalog.search "" = catalog.components := by
  have everywhere : ∀ text : String, Text.contains text (Text.lower "") = true := by
    intro text
    exact Text.occurs_iff.mpr List.nil_infix
  rw [Catalog.search]
  apply List.filter_eq_self.mpr
  intro component _
  rw [everywhere, Bool.true_or]

/-- A mode that is given by its label is read alike by all tools. -/
theorem ofLabel_eq_parse
    {label : String} (isLabel : label ∈ ["", "substring", "exact", "word"]) :
    MatchMode.ofLabel label = MatchMode.parse label := by
  have unchanged : ∀ label ∈ ["", "substring", "exact", "word"],
      Text.lower (Text.trim label) = label := by
    decide +kernel
  rw [MatchMode.ofLabel, MatchMode.parse, unchanged label isLabel]

theorem resolve_matchMode
    {request : Project.Request} {options : Project.Options}
    (resolved : request.resolve = .ok options) :
    MatchMode.parse request.matchMode = .ok options.matchMode := by
  unfold Project.Request.resolve at resolved
  split at resolved
  · cases resolved
  · split at resolved
    · cases resolved
    · rename_i mode parsed
      cases resolved
      exact parsed

theorem isEmpty_unused (mode : MatchMode) (surface : List String) (name : String) :
    (Usage.unused mode surface [name]).isEmpty = Usage.isUsed mode surface name := by
  rw [Usage.unused]
  cases used : Usage.isUsed mode surface name with
  | true => rw [List.filter_cons_of_neg (by simp [used]), List.filter_nil, List.isEmpty_nil]
  | false => rw [List.filter_cons_of_pos (by simp [used]), List.isEmpty_cons]

section Named

variable {config : Config} {index : Index} {mode : MatchMode} {name : String}

theorem namedResponse_unknown
    (unknown : index.components.filter (·.name == name) = []) :
    namedResponse config index name = .error (.unknownComponent name) := by
  have isEmpty : ((catalogOf index).named name).isEmpty = true := by
    rw [Catalog.named, catalogOf, unknown, List.isEmpty_nil]
  simp only [namedResponse, isEmpty, if_true]

theorem namedResponse_known
    (label : MatchMode.ofLabel config.request.matchMode = .ok mode)
    (known : index.components.filter (·.name == name) ≠ []) :
    namedResponse config index name =
      .ok (.object [("name", .string name),
        ("files", Json.strings ((index.components.filter (·.name == name)).map (·.file))),
        ("used", .bool (Usage.isUsed mode index.surface name))]) := by
  have nonempty : ((catalogOf index).named name).isEmpty = false := by
    rw [Catalog.named, catalogOf, List.isEmpty_eq_false_iff]
    exact known
  simp only [namedResponse, nonempty, Bool.false_eq_true, if_false, label, isEmpty_unused]
  rfl

/-- Of the names of some components, one that no specifier uses is reported once for each of its
components, and one that is used not at all. -/
theorem count_unused_components
    (known : index.components.filter (·.name == name) ≠ []) :
    (Usage.isUsed mode index.surface name = false ↔
        name ∈ (Usage.findings mode index).components) ∧
      (Usage.isUsed mode index.surface name = false →
        (index.components.filter (·.name == name)).length =
          (Usage.findings mode index).components.count name) := by
  have counted : (index.components.filter (·.name == name)).length =
      (index.components.map (·.name)).count name := by
    rw [List.count, List.countP_map, List.countP_eq_length_filter]
    rfl
  have onCount : Usage.isUsed mode index.surface name = false →
      (index.components.filter (·.name == name)).length =
        (Usage.findings mode index).components.count name := by
    intro notUsed
    rw [Usage.findings, Usage.count_unused notUsed, counted]
  refine ⟨⟨fun notUsed => ?_, fun reported => ?_⟩, onCount⟩
  · apply List.count_pos_iff.mp
    rw [← onCount notUsed]
    exact List.length_pos_iff.mpr known
  · apply Bool.eq_false_iff.mpr
    intro used
    exact Usage.not_mem_unused used _ reported

end Named

/-! ## Agreement -/

/-- The tools agree about a tree, each asked of a server that is ready for it. Asking for the
components of a name fails exactly when the search for unused names fails or no entry of the list
has the name. Otherwise the files are those of the entries of the name, in order; the components
are not used exactly when the name is among the unused ones; and then it is there once for each
entry. -/
theorem tools_agree
    {config : Config} {tree : FileTree} {name : String} (named : name ≠ "")
    (label : config.request.matchMode ∈ ["", "substring", "exact", "word"])
    {searching listing asking : Option Cache.Result} (searchReady : Ready config tree searching)
    (listReady : Ready config tree listing) (askReady : Ready config tree asking) :
    ((∃ fault, (answer config asking tree .getComponent [("name", .string name)]).result =
        .error fault) ↔
      (∃ fault, (answer config searching tree .findUnused []).result = .error fault) ∨
        entriesNamed name (answer config listing tree .listComponents []).result = []) ∧
    ∀ component,
      (answer config asking tree .getComponent [("name", .string name)]).result = .ok component →
        ∃ response unused used files,
          (answer config searching tree .findUnused []).result = .ok response ∧
          parameter? response "unused_components" = some (Json.strings unused) ∧
          parameter? component "used" = some (.bool used) ∧
          parameter? component "files" = some (Json.strings files) ∧
          (entriesNamed name (answer config listing tree .listComponents []).result).map
              (parameter? · "file") = files.map (fun file => some (.string file)) ∧
          (used = false ↔ name ∈ unused) ∧
          (used = false →
            (entriesNamed name (answer config listing tree .listComponents []).result).length =
              unused.count name) := by
  rcases scanned_cases config tree with failed | ⟨options, project, index, resolved, found⟩
  · obtain ⟨searchFault, searchFailed⟩ := failed searching searchReady
    obtain ⟨askFault, askFailed⟩ := failed asking askReady
    rw [getComponent_result named, askFailed, findUnused_result, searchFailed]
    refine ⟨⟨fun _ => Or.inl ⟨searchFault, rfl⟩, fun _ => ⟨askFault, rfl⟩⟩, fun _ done => ?_⟩
    cases done
  · obtain ⟨searchBuilt, searchDone, searchAgrees⟩ := found searching searchReady
    obtain ⟨listBuilt, listDone, listAgrees⟩ := found listing listReady
    obtain ⟨askBuilt, askDone, askAgrees⟩ := found asking askReady
    have searched : (answer config searching tree .findUnused []).result =
        .ok (unusedResponse project ⟨searchBuilt.index, searchBuilt.stats,
          Usage.findings options.matchMode searchBuilt.index⟩ "") := by
      rw [findUnused_result, searchDone, resolved]
      rfl
    have listed : (answer config listing tree .listComponents []).result =
        .ok (.array (askBuilt.index.components.map componentResponse)) := by
      rw [listComponents_result, listDone]
      simp only [Except.map, search_all, catalogOf, listAgrees.components, askAgrees.components]
    have asked : (answer config asking tree .getComponent [("name", .string name)]).result =
        namedResponse config askBuilt.index name := by
      rw [getComponent_result named, askDone]
      rfl
    have findings : Usage.findings options.matchMode searchBuilt.index =
        Usage.findings options.matchMode askBuilt.index := by
      rw [searchAgrees.findings, askAgrees.findings]
    have mode : MatchMode.ofLabel config.request.matchMode = .ok options.matchMode :=
      (ofLabel_eq_parse label).trans (resolve_matchMode resolved)
    rw [searched, listed, asked, entriesNamed_components, findings]
    by_cases known : askBuilt.index.components.filter (·.name == name) = []
    · rw [namedResponse_unknown known, known]
      refine ⟨⟨fun _ => Or.inr rfl, fun _ => ⟨_, rfl⟩⟩, fun component done => ?_⟩
      cases done
    · obtain ⟨reported, counted⟩ := @count_unused_components _ options.matchMode _ known
      rw [namedResponse_known mode known]
      refine ⟨⟨?_, ?_⟩, fun component done => ?_⟩
      · rintro ⟨fault, failed⟩
        cases failed
      · rintro (⟨fault, failed⟩ | none)
        · cases failed
        · exact absurd (List.map_eq_nil_iff.mp none) known
      · cases done
        refine ⟨_, _, _, _, rfl, rfl, rfl, rfl, files_components _, reported, ?_⟩
        rw [List.length_map]
        exact counted

/-! ## One component -/

def oneComponent : FileTree :=
  ⟨[("src", .directory [("App.tsx", .file ByteArray.empty 0)])]⟩

def plainConfig : Config := ⟨".", .default⟩

/-- A call that names no project is about the working directory. -/
theorem projectOf_here (tree : FileTree) {arguments : Arguments}
    (unnamed : arguments.text "project" "." = ".") :
    projectOf plainConfig tree arguments = .ok "." := by
  have named : arguments.text "project" plainConfig.defaultProject = "." := unnamed
  simp only [projectOf, named, Project.validate, FileTree.stat_here]
  rfl

theorem textAt?_oneComponent :
    oneComponent.textAt? (Project.sourceFolder ".") "App.tsx" = some "" :=
  Project.textAt?_source ⟨⟨by decide, by decide, by decide⟩, by decide⟩ rfl

theorem scanned_oneComponent :
    ∃ built, scanned plainConfig none oneComponent = .ok (".", built) ∧
      built.index.components = [⟨"App.tsx", "App"⟩] ∧ built.index.surface = [] := by
  have discovered : Scan.discovered oneComponent (Project.sourceFolder ".") ⟨[], 0, ""⟩ =
      .ok ["App.tsx"] := by
    have sources : FileTree.nodeAt? oneComponent.top ["src"] =
        some (.directory [("App.tsx", .file ByteArray.empty 0)]) := rfl
    rw [Project.discovered_source sources]
    rfl
  obtain ⟨built, succeeded, assembled⟩ :=
    Scan.build_of_text .default discovered textAt?_oneComponent
  have files : built.index.files = ["App.tsx"] := by rw [assembled]; rfl
  refine ⟨built, ?_, ?_, ?_⟩
  · have named : projectOf plainConfig oneComponent [] = .ok "." := projectOf_here _ rfl
    have indexed : (Project.index none oneComponent "." plainConfig.request false).result =
        .ok built := by
      have request : plainConfig.request = .default := rfl
      simp only [request, Project.index, Project.Request.resolve_default]
      exact succeeded
    simp only [scanned, named, indexed]
    rfl
  · rw [Scan.build_components succeeded, files]
    decide +kernel
  · rw [(Scan.build_reflects succeeded).surface, files, List.flatMap_singleton,
      FileTree.textAt_eq textAt?_oneComponent]
    decide +kernel

/-- A server without a cache tells that the one component is not used, so one with a cache finds it
among the unused ones. -/
theorem tools_agree_oneComponent :
    ∃ response unused,
      (answer plainConfig (some ⟨1, [], 0, 0, 0⟩) oneComponent .findUnused []).result =
        .ok response ∧
      parameter? response "unused_components" = some (Json.strings unused) ∧ "App" ∈ unused := by
  obtain ⟨built, done, components, surface⟩ := scanned_oneComponent
  have known : built.index.components.filter (·.name == "App") = [⟨"App.tsx", "App"⟩] := by
    rw [components]
    decide
  have asked : (answer plainConfig none oneComponent .getComponent
      [("name", .string "App")]).result =
        .ok (.object [("name", .string "App"), ("files", Json.strings ["App.tsx"]),
          ("used", .bool false)]) := by
    have label : MatchMode.ofLabel plainConfig.request.matchMode = .ok .substring := rfl
    rw [getComponent_result (by decide), done]
    simp only [Except.bind]
    rw [namedResponse_known label (by rw [known]; decide), known, surface]
    rfl
  have askReady := ready_uncached plainConfig oneComponent
  have searchReady : Ready plainConfig oneComponent (some ⟨1, [], 0, 0, 0⟩) :=
    @ready_cached 1 _ rfl _ _
  have listReady := searchReady.answered .findUnused []
  obtain ⟨response, unused, used, _, searched, isUnused, isUsed, _, _, reported, _⟩ :=
    (@tools_agree _ _ "App" (by decide) (by decide) _ _ _ searchReady listReady askReady).2 _ asked
  have notUsed : used = false := by
    cases isUsed
    rfl
  exact ⟨response, unused, searched, isUnused, reported.mp notUsed⟩

end ImportAudit.ToolServer
