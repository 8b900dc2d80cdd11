import ImportAudit.CommandLine.Help
import ImportAudit.Settings.Sources
import ImportAudit.ToolServer
import ImportAudit.Watching

/-!
# The program

A command line either ends at once, with a code and what it printed, or starts to watch a project
or to serve tools. Faults are printed as errors; a wrong number of arguments prints how the
command is used.
-/

namespace ImportAudit.Program

structure Invocation where
  words : List String
  environment : List (String × String)
  cancelled : Bool

/-- A program that ended: its code, what it printed, what it logged and how, and the tree it
left. -/
structure Ended where
  code : Nat
  output : String
  error : String
  log : List Log.Record
  logging : Log.Settings
  tree : FileTree

def Ended.logLines (ended : Ended) : List String :=
  ended.logging.lines ended.log

def printed (code : Nat) (output : String) (tree : FileTree) : Ended :=
  ⟨code, output, "", [], .default, tree⟩

def errorText (fault : Fault) : String :=
  "Error: " ++ fault.message ++ "\n"

def refused (tree : FileTree) (fault : Fault) : Ended :=
  ⟨1, "", errorText fault, [], .default, tree⟩

def failed (logging : Log.Settings) (progress : Progress) (fault : Fault) : Ended :=
  ⟨1, progress.output, errorText fault, progress.log, logging, progress.tree⟩

inductive Begun
  | ended (ended : Ended)
  | watching (watching : Watching) (progress : Progress)
  | serving (server : ToolServer) (logging : Log.Settings) (progress : Progress)

def settingsFor (tree : FileTree) (environment : List (String × String))
    (given : CommandLine.Given) (project : String) : Except Fault Settings :=
  Settings.load tree environment given (Settings.searchDirectory project) (given.text "config")

def projectSettings (tree : FileTree) (environment : List (String × String))
    (given : CommandLine.Given) (project : String) : Except Fault Settings :=
  match Project.validate tree project with
  | .error fault => .error fault
  | .ok () => settingsFor tree environment given project

def scanOutput (settings : Settings) (reported : Project.Reported) : String :=
  if settings.summary then
    Report.summary reported.audit.findings (some reported.audit.stats) ++
      "Report written to " ++ reported.path ++ "\n"
  else ""

def scan (tree : FileTree) (invocation : Invocation) (given : CommandLine.Given)
    (project : String) : Ended :=
  match projectSettings tree invocation.environment given project with
  | .error fault => refused tree fault
  | .ok settings =>
    let outcome := Project.run none tree project settings.request settings.reportFormat
      invocation.cancelled
    match outcome.result with
    | .error fault => failed settings.logging ⟨"", outcome.log, outcome.tree⟩ fault
    | .ok reported =>
      ⟨0, scanOutput settings reported, "", outcome.log, settings.logging, outcome.tree⟩

def watch (tree : FileTree) (invocation : Invocation) (given : CommandLine.Given)
    (project : String) : Begun :=
  match projectSettings tree invocation.environment given project with
  | .error fault => .ended (refused tree fault)
  | .ok settings =>
    match Watching.start project settings tree invocation.cancelled with
    | (.error fault, progress) => .ended (failed settings.logging progress fault)
    | (.ok watching, progress) => .watching watching progress

/-- Checks the project of a server, if it has one. -/
def validateServed (tree : FileTree) (project : String) : Except Fault Unit :=
  if project = "" then .ok () else Project.validate tree project

def servingRecord (settings : Settings) : Log.Record :=
  ⟨.info, "MCP server starting",
    [("project", .string settings.serve.project), ("log_file", .string settings.serve.logFile)]⟩

/-- Starts to serve tools. The settings file is looked for in the project of the flag. -/
def serve (tree : FileTree) (invocation : Invocation) (given : CommandLine.Given) : Begun :=
  match settingsFor tree invocation.environment given (given.text "project") with
  | .error fault => .ended (refused tree fault)
  | .ok settings =>
    match validateServed tree settings.serve.project with
    | .error fault => .ended (refused tree fault)
    | .ok () =>
      match CallLog.openAt tree settings.serve.logFile with
      | .error fault => .ended (refused tree fault)
      | .ok (callLog, tree) =>
        .serving ⟨⟨settings.serve.project, settings.request⟩, some .default, callLog⟩
          settings.logging ⟨"", [servingRecord settings], tree⟩

/-- What a command line leads to. -/
def begin (tree : FileTree) (invocation : Invocation) : Begun :=
  match CommandLine.Action.ofWords invocation.words with
  | .showHelp command => .ended (printed 0 command.helpText tree)
  | .showVersion =>
    .ended (printed 0 (CommandLine.programName ++ " " ++ CommandLine.programVersion ++ "\n") tree)
  | .showUsage line => .ended (printed 1 (line ++ "\n") tree)
  | .refuse fault => .ended (refused tree fault)
  | .scan project given => .ended (scan tree invocation given project)
  | .watch project given => watch tree invocation given project
  | .serve given => serve tree invocation given

/-- The end of a program that was watching, after all its progress. -/
def endWatching (watching : Watching) (progress : Progress) : Ended :=
  ⟨0, progress.output, "", progress.log ++ watching.farewell, watching.settings.logging,
    progress.tree⟩

/-- The end of a program that was serving, after all its progress. -/
def endServing (logging : Log.Settings) (progress : Progress) : Ended :=
  ⟨0, progress.output, "", progress.log, logging, progress.tree⟩

end ImportAudit.Program
