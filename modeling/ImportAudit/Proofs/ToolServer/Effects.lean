import ImportAudit.Proofs.AtomicRun
import ImportAudit.Proofs.Json.OneLine
import ImportAudit.Proofs.ToolServer.Agreement
import ImportAudit.ToolServer.Message

/-!
# What calls change

A call is always answered by a reply, whatever its arguments are. It writes one file at most: the
report of its project, if a search for unused names was asked for it and succeeded. A server with a
call log replies as one without, and every call adds one entry to the log.
-/

namespace ImportAudit

namespace CallLog

/-- The file of a log is where the log was opened. -/
def Stands (log : CallLog) (tree : FileTree) : Prop :=
  ∃ content modified, FileTree.nodeAt? tree.top log.place = some (.file content modified)

/-- A log that was opened has a file. -/
theorem stands_of_openAt
    {tree after : FileTree} {path : String} {log : CallLog}
    (opened : openAt tree path = .ok (some log, after)) : log.Stands after := by
  unfold openAt at opened
  split at opened
  · cases opened
  · split at opened
    · cases opened
    · split at opened
      · cases opened
      · rename_i made _ place writable
        obtain ⟨ready, _⟩ := FileTree.open_of_writable writable
        split at opened
        · rename_i node found
          cases opened
          obtain ⟨content, modified, rfl⟩ := FileTree.file_of_open ready found
          exact ⟨content, modified, found⟩
        · cases opened
          have named : place ≠ [] := by
            rintro rfl
            cases ready
          exact ⟨.empty, 0, FileTree.nodeAt?_putEntries_self named _⟩

/-- A write in one place keeps the file of a log. -/
theorem Stands.of_standing
    {log : CallLog} {tree after : FileTree} (stands : log.Stands tree)
    (same : after.standing? log.place = tree.standing? log.place) : log.Stands after := by
  obtain ⟨content, modified, found⟩ := stands
  rw [FileTree.standing?, FileTree.standing?, found] at same
  obtain ⟨node, isNode, alike⟩ := Option.map_eq_some_iff.mp same
  cases node with
  | file content modified => exact ⟨content, modified, isNode⟩
  | directory entries => cases alike
  | link target => cases alike

/-- An entry is added at the end of the file, and nothing else changes. -/
theorem append_standing
    {log : CallLog} {tree : FileTree} {content : ByteArray} {modified : Int}
    (found : FileTree.nodeAt? tree.top log.place = some (.file content modified))
    (entry : Entry) :
    FileTree.nodeAt? (log.append entry tree).top log.place =
        some (.file (content ++ entry.line.toUTF8) modified) ∧
      ∀ other, other ≠ log.place →
        (log.append entry tree).standing? other = tree.standing? other := by
  have ready := FileTree.open_of_file found
  have named : log.place ≠ [] := by
    intro top
    rw [top] at ready
    cases ready
  have added : log.append entry tree =
      tree.put log.place (.file (content ++ entry.line.toUTF8) modified) := by
    rw [append, found]
  rw [added]
  refine ⟨FileTree.nodeAt?_putEntries_self named _, fun other differs => ?_⟩
  exact FileTree.itself_putEntries ready differs _ _

/-- An entry is one line, whatever was logged. -/
theorem Entry.line_eq (entry : Entry) :
    ∃ text, entry.line.toList = text ++ ['\n'] ∧ '\n' ∉ text := by
  refine ⟨(entry.toJson.render .safe).toList, ?_, ?_⟩
  · rw [Entry.line, String.toList_append]
    rfl
  · exact (Json.printed_render .safe entry.toJson).feedFree

end CallLog

namespace ToolServer

/-! ## Calls that only read -/

section Answered

variable (config : Config) (cache : Option Cache.Result) (tree : FileTree)
  (arguments : Arguments)

def projectNamed (config : Config) (arguments : Arguments) : String :=
  arguments.text "project" config.defaultProject

theorem eq_projectNamed
    {project : String} (named : projectOf config tree arguments = .ok project) :
    project = projectNamed config arguments := by
  unfold projectOf at named
  dsimp only at named
  split at named
  · cases named
  · cases valid : Project.validate tree (arguments.text "project" config.defaultProject) with
    | error fault =>
      rw [valid] at named
      cases named
    | ok done =>
      rw [valid] at named
      cases named
      rfl

/-- A call is refused untouched, or runs one scan of its project. -/
theorem withScan_cases {α : Type} (scan : String → Project.Request → Answer α) :
    (∃ fault, withScan config cache tree arguments scan =
      .untouched cache tree (.error fault)) ∨
    ∃ request, withScan config cache tree arguments scan =
      { scan (projectNamed config arguments) request with
        result := (scanFault (scan (projectNamed config arguments) request).result).map
          fun value => (projectNamed config arguments, value) } := by
  cases named : projectOf config tree arguments with
  | error fault =>
    refine Or.inl ⟨fault, ?_⟩
    simp only [withScan, named]
  | ok project =>
    cases read : requestOf config arguments with
    | error fault =>
      refine Or.inl ⟨fault, ?_⟩
      simp only [withScan, named, read]
    | ok request =>
      refine Or.inr ⟨request, ?_⟩
      simp only [withScan, named, read, ← eq_projectNamed config tree arguments named]

theorem index_tree (project : String) (request : Project.Request) :
    (Project.index cache tree project request false).tree = tree := by
  unfold Project.index
  split
  · rfl
  · exact Scan.build_tree _ _ _ _ _ _

theorem indexOf_tree : (indexOf config cache tree arguments).tree = tree := by
  rw [indexOf, Answer.follow]
  rcases @withScan_cases config cache tree arguments Index _ with
    ⟨fault, refused⟩ | ⟨request, scanned⟩
  · rw [refused]
    rfl
  · rw [scanned]
    dsimp only
    exact index_tree cache tree _ request

theorem getComponent_tree : (getComponent config cache tree arguments).tree = tree := by
  rw [getComponent]
  by_cases unnamed : arguments.text "name" "" = ""
  · rw [if_pos unnamed]
    rfl
  · rw [if_neg unnamed]
    exact indexOf_tree config cache tree arguments

/-! ## Calls that write a report -/

/-- A call asks for the report of its project. -/
def AsksForReport (tool : Tool) (arguments : Arguments) : Prop :=
  tool = .findUnused ∧ arguments.isTrue "write_report" = true

/-- The names in a response are those in the report of a project, and whatever stands anywhere else
is as it was. -/
def Reports (project : String) (response : Json) (tree after : FileTree) : Prop :=
  ∃ declarations components place modified,
    parameter? response "project" = some (.string project) ∧
    parameter? response "unused_intrafaces" = some (Json.strings declarations) ∧
    parameter? response "unused_components" = some (Json.strings components) ∧
    parameter? response "report_path" = some (.string (Report.path project .text)) ∧
    after.find true (Report.path project .text) =
      .ok (place, .file (Report.textReport ⟨declarations, components⟩).toUTF8 modified) ∧
    ∀ other, other ≠ place → after.standing? other = tree.standing? other

/-- A search that is not asked for a report writes nothing. -/
theorem findUnused_silent
    {arguments : Arguments} (silent : arguments.isTrue "write_report" = false) :
    (findUnused config cache tree arguments).tree = tree := by
  rw [findUnused, Answer.follow]
  rcases @withScan_cases config cache tree arguments (Project.Audit × String) _ with
    ⟨fault, refused⟩ | ⟨request, scanned⟩
  · rw [refused]
    rfl
  · rw [scanned]
    simp only [silent, Bool.false_eq_true, if_false]
    exact Project.findUnused_tree _ _ _ _ _

/-- A search that was asked for the report writes it, or fails and writes nothing. -/
theorem findUnused_reporting
    {arguments : Arguments} (asked : arguments.isTrue "write_report" = true) :
    ((∃ fault, (findUnused config cache tree arguments).result = .error fault) ∧
      (findUnused config cache tree arguments).tree = tree) ∨
    ∃ response, (findUnused config cache tree arguments).result = .ok response ∧
      Reports (projectNamed config arguments) response tree
        (findUnused config cache tree arguments).tree := by
  rw [findUnused, Answer.follow]
  rcases @withScan_cases config cache tree arguments (Project.Audit × String) _ with
    ⟨fault, refused⟩ | ⟨request, scanned⟩
  · rw [refused]
    exact Or.inl ⟨⟨fault, rfl⟩, rfl⟩
  · rw [scanned]
    simp only [asked, if_true]
    rcases Project.run_cases cache tree (projectNamed config arguments) request "text" false with
      ⟨fault, failed, unchanged⟩ | ⟨audit, path, after, _, written, done, left⟩
    · rw [failed, unchanged]
      exact Or.inl ⟨⟨_, rfl⟩, rfl⟩
    · rw [done, left]
      obtain ⟨format, place, modified, label, rfl, found, same⟩ := Project.find_report written
      cases label
      refine Or.inr ⟨_, rfl, audit.findings.declarations, audit.findings.components, place,
        modified, rfl, rfl, rfl, ?_, found, same⟩
      have named : Report.path (projectNamed config arguments) .text ≠ "" := by
        intro empty
        rw [empty] at found
        simp [FileTree.find, FileTree.locate] at found
      simp only [unusedResponse, if_neg named]
      rfl

/-- A call changes no file, unless it asks for a report and succeeds. -/
theorem answer_tree
    {arguments : Arguments} {tool : Tool}
    (reads : ¬ (AsksForReport tool arguments ∧
      ∃ response, (answer config cache tree tool arguments).result = .ok response)) :
    (answer config cache tree tool arguments).tree = tree := by
  cases tool with
  | findUnused =>
    cases asked : arguments.isTrue "write_report" with
    | false => exact findUnused_silent config cache tree asked
    | true =>
      rcases findUnused_reporting config cache tree asked with
        ⟨_, unchanged⟩ | ⟨response, done, _⟩
      · exact unchanged
      · exact absurd ⟨⟨rfl, asked⟩, response, done⟩ reads
  | getComponent => exact getComponent_tree config cache tree arguments
  | listImports => exact indexOf_tree config cache tree arguments
  | listExports => exact indexOf_tree config cache tree arguments
  | listComponents => exact indexOf_tree config cache tree arguments

/-- A call that asks for a report and succeeds has written it. -/
theorem answer_reports
    {arguments : Arguments} {tool : Tool} (asks : AsksForReport tool arguments) {response : Json}
    (done : (answer config cache tree tool arguments).result = .ok response) :
    Reports (projectNamed config arguments) response tree
      (answer config cache tree tool arguments).tree := by
  obtain ⟨rfl, asked⟩ := asks
  rcases findUnused_reporting config cache tree asked with
    ⟨⟨fault, failed⟩, _⟩ | ⟨written, same, reports⟩
  · rw [answer, failed] at done
    cases done
  · rw [answer, same] at done
    cases done
    exact reports

/-- The file of a log stays where it is, whatever a call writes. -/
theorem stands_answer
    {log : CallLog} {tree : FileTree} (stands : log.Stands tree) (tool : Tool) :
    log.Stands (answer config cache tree tool arguments).tree := by
  by_cases writes : AsksForReport tool arguments ∧
      ∃ response, (answer config cache tree tool arguments).result = .ok response
  · obtain ⟨asks, response, done⟩ := writes
    obtain ⟨_, _, place, modified, _, _, _, _, found, same⟩ :=
      answer_reports config cache tree asks done
    -- The report may have been written over the log, which is a file even then.
    by_cases isReport : log.place = place
    · rw [← isReport] at found
      exact ⟨_, modified, FileTree.nodeAt?_of_find found⟩
    · exact stands.of_standing (same _ isReport)
  · rw [answer_tree config cache tree writes]
    exact stands

end Answered

/-! ## Calls and their log -/

/-- Whether a reply tells of a fault is what the result is. -/
theorem Reply.isError_ofResult (result : Except Fault Json) :
    (Reply.ofResult result).isError = true ↔ ∃ fault, result = .error fault := by
  cases result with
  | error fault => simp [Reply.ofResult, Reply.ofFault]
  | ok value => simp [Reply.ofResult, Reply.ofValue]

theorem parameter?_toolError (entry : CallLog.Entry) :
    parameter? entry.toJson "tool_error" = some (.bool entry.toolError) := by
  rw [CallLog.Entry.toJson, parameter?, CallLog.fieldUnlessEmpty]
  by_cases unnamed : entry.project = ""
  · rw [if_pos unnamed]
    rfl
  · rw [if_neg unnamed]
    rfl

/-- A log has one entry more than before: one line at its end, which tells of a call of the tool
with the reply. Nothing else has changed. -/
def Logs (log : CallLog) (tool : Tool) (reply : Reply) (tree after : FileTree) : Prop :=
  ∃ (content : ByteArray) (modified : Int) (entry : CallLog.Entry) (text : List Char),
    FileTree.nodeAt? tree.top log.place = some (.file content modified) ∧
    FileTree.nodeAt? after.top log.place =
      some (.file (content ++ entry.line.toUTF8) modified) ∧
    (∀ other, other ≠ log.place → after.standing? other = tree.standing? other) ∧
    (entry.line.toList = text ++ ['\n'] ∧ '\n' ∉ text) ∧
    entry.tool = tool.name ∧
    parameter? entry.toJson "tool_error" = some (.bool reply.isError)

theorem logs_append
    {log : CallLog} {tree : FileTree} (stands : log.Stands tree) (config : Config) (tool : Tool)
    (arguments : Arguments) (reply : Reply) (moment : Moment) :
    Logs log tool reply tree (log.append (entryOf config tool arguments reply moment) tree) := by
  obtain ⟨content, modified, found⟩ := stands
  obtain ⟨added, same⟩ :=
    CallLog.append_standing found (entryOf config tool arguments reply moment)
  obtain ⟨text, line⟩ := CallLog.Entry.line_eq (entryOf config tool arguments reply moment)
  exact ⟨content, modified, _, text, found, added, same, line, rfl, parameter?_toolError _⟩

/-- A server that opened a log and answered calls, and the tree that they left. -/
inductive Logging (log : CallLog) : ToolServer → FileTree → Prop
  | opened {config : Config} {cache : Option Cache.Result} {tree after : FileTree} {path : String}
      (opened : CallLog.openAt tree path = .ok (some log, after)) :
      Logging log ⟨config, cache, some log⟩ after
  | called {server : ToolServer} {tree : FileTree} (earlier : Logging log server tree)
      (tool : Tool) (arguments : Arguments) (moment : Moment) :
      Logging log (server.call tree tool arguments moment).server
        (server.call tree tool arguments moment).tree

/-- The file of a log is there whatever calls were answered. -/
theorem Logging.stands
    {log : CallLog} {server : ToolServer} {tree : FileTree} (logging : Logging log server tree) :
    server.callLog = some log ∧ log.Stands tree := by
  induction logging with
  | opened opened => exact ⟨rfl, CallLog.stands_of_openAt opened⟩
  | @called server tree earlier tool arguments moment inductionHypothesis =>
    obtain ⟨isLog, stands⟩ := inductionHypothesis
    refine ⟨isLog, ?_⟩
    obtain ⟨content, modified, _, _, _, added, _⟩ :=
      logs_append (stands_answer server.config server.cache arguments stands tool)
        server.config tool arguments
        (Reply.ofResult (answer server.config server.cache tree tool arguments).result) moment
    rw [call, isLog]
    exact ⟨_, modified, added⟩

@[simp]
theorem ofName?_name (tool : Tool) : Tool.ofName? tool.name = some tool := by
  cases tool <;> decide

/-- A request that names a tool is answered by the reply to the call, and never refused. -/
theorem exchangeRequest_call
    {server : ToolServer} {tree : FileTree} {request parameters : Json} {tool : Tool}
    (method : textParameter request "method" = "tools/call")
    (given : (parameter? request "params").getD .null = parameters)
    (named : textParameter parameters "name" = tool.name) (id : Json) (moment : Moment) :
    (exchangeRequest server tree id request moment).response =
      some (messageLine id
        ("result", (server.call tree tool (argumentsOf parameters) moment).reply.toJson)) := by
  have called : server.callNamed tree parameters moment =
      .ok (server.call tree tool (argumentsOf parameters) moment) := by
    simp [callNamed, named]
  unfold exchangeRequest
  rw [if_pos method, given, called]

def loggedComponent : FileTree :=
  ⟨[("calls.jsonl", .file ByteArray.empty 0),
    ("src", .directory [("App.tsx", .file ByteArray.empty 0)])]⟩

def loggingServer : ToolServer := ⟨plainConfig, none, some ⟨["calls.jsonl"]⟩⟩

theorem textAt?_loggedComponent :
    loggedComponent.textAt? (Project.sourceFolder ".") "App.tsx" = some "" :=
  Project.textAt?_source ⟨⟨by decide, by decide, by decide⟩, by decide⟩ rfl

theorem answer_loggedComponent :
    ∃ response, (answer plainConfig none loggedComponent .findUnused
      [("write_report", .bool true)]).result = .ok response := by
  have discovered : Scan.discovered loggedComponent (Project.sourceFolder ".") ⟨[], 0, ""⟩ =
      .ok ["App.tsx"] := by
    have sources : FileTree.nodeAt? loggedComponent.top ["src"] =
        some (.directory [("App.tsx", .file ByteArray.empty 0)]) := rfl
    rw [Project.discovered_source sources]
    rfl
  obtain ⟨built, succeeded, _⟩ := Scan.build_of_text .default discovered textAt?_loggedComponent
  have searched : (Project.findUnused none loggedComponent "." .default false).result =
      .ok ⟨built.index, built.stats, Usage.findings .substring built.index⟩ := by
    have scanned : (Project.indexWith none loggedComponent "."
        ⟨.line, .substring, Marker.defaults, [], 0⟩ false).result = .ok built := succeeded
    simp only [Project.findUnused, Project.Request.resolve_default, scanned]
    rfl
  obtain ⟨after, written⟩ : ∃ after, Report.write loggedComponent "." "text"
      (Usage.findings .substring built.index) = .ok (Report.path "." .text, after) := by
    have label : Report.Format.ofLabel "text" = .ok .text := rfl
    have writable : loggedComponent.writable (Report.path "." .text) =
        .ok ["unused_intrafaces.txt"] := Project.writable_report .text rfl
    simp only [Report.write, label, FileTree.write, writable]
    exact ⟨_, rfl⟩
  have done : (Project.run none loggedComponent "." .default "text" false).result =
      .ok ⟨⟨built.index, built.stats, Usage.findings .substring built.index⟩,
        Report.path "." .text, after⟩ := by
    simp only [Project.run, searched, Project.findUnused_tree, written]
  have named : projectOf plainConfig loggedComponent [("write_report", .bool true)] =
      .ok "." := projectOf_here _ rfl
  have read : requestOf plainConfig [("write_report", .bool true)] = .ok .default := by
    decide +kernel
  have asked : Arguments.isTrue [("write_report", .bool true)] "write_report" = true := rfl
  refine ⟨unusedResponse "." ⟨built.index, built.stats, Usage.findings .substring built.index⟩
    (Report.path "." .text), ?_⟩
  simp only [answer, findUnused, withScan, named, read, asked, if_true, Answer.follow, done]
  rfl

def reportRequest : Json :=
  .object [("method", .string "tools/call"),
    ("params", .object [("name", .string "find_unused"),
      ("arguments", .object [("write_report", .bool true)])])]

end ToolServer

end ImportAudit
