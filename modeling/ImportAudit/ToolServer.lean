import ImportAudit.CallLog
import ImportAudit.CommandLine.Command
import ImportAudit.ToolServer.Handler

/-!
# The tool server

A server keeps one cache for all calls, and a call log if it was asked for one. Requests are
answered by a value or refused by a code and a message; logging a call changes nothing about its
reply.
-/

namespace ImportAudit

structure ToolServer where
  config : ToolServer.Config
  cache : Option Cache.Result
  callLog : Option CallLog

namespace ToolServer

/-- When a call started, and how long it took. -/
structure Moment where
  time : String
  milliseconds : Int
  deriving DecidableEq, Repr

/-- A call that was answered: the reply, the server and the tree afterwards, and what was
logged. -/
structure Called where
  reply : Reply
  server : ToolServer
  tree : FileTree
  log : List Log.Record

/-- The arguments that are logged whatever their length. -/
def keptArguments : List String := ["project"]

def entryOf (config : Config) (tool : Tool) (arguments : Arguments) (reply : Reply)
    (moment : Moment) : CallLog.Entry where
  time := moment.time
  tool := tool.name
  project := arguments.text "project" config.defaultProject
  parameters := some (CallLog.sanitize keptArguments arguments)
  durationMilliseconds := moment.milliseconds
  responseBytes := CallLog.responseBytes [reply.text]
  toolError := reply.isError
  error := none

/-- Calls a tool and notes the call if there is a log for it. -/
def call (server : ToolServer) (tree : FileTree) (tool : Tool) (arguments : Arguments)
    (moment : Moment) : Called :=
  let answered := answer server.config server.cache tree tool arguments
  let reply := Reply.ofResult answered.result
  let tree :=
    match server.callLog with
    | some log => log.append (entryOf server.config tool arguments reply moment) answered.tree
    | none => answered.tree
  ⟨reply, { server with cache := answered.cache }, tree, answered.log⟩

/-! ## Requests -/

inductive Refusal
  | unknownMethod (method : String)
  | unsupported (feature : String)
  | unknownTool (name : String)
  deriving DecidableEq, Repr

def Refusal.code : Refusal → Int
  | .unknownMethod _ => -32601
  | .unsupported _ => -32601
  | .unknownTool _ => -32602

def Refusal.message : Refusal → String
  | .unknownMethod method => "Method " ++ method ++ " not found"
  | .unsupported feature => feature ++ " not supported"
  | .unknownTool name => "tool '" ++ name ++ "' not found: tool not found"

/-- The versions of the protocol, the latest first. -/
def protocolVersions : List String := ["2025-11-25", "2025-06-18", "2025-03-26", "2024-11-05"]

/-- The version of a client that names none. -/
def assumedVersion : String := "2025-03-26"

/-- The version to speak with a client: its own if known, else the latest. -/
def speakVersion (asked : String) : String :=
  if asked = "" then assumedVersion
  else if protocolVersions.contains asked then asked
  else protocolVersions.headD ""

def parameter? (parameters : Json) (name : String) : Option Json :=
  match parameters with
  | .object fields => fields.lookup name
  | _ => none

def textParameter (parameters : Json) (name : String) : String :=
  match parameter? parameters name with
  | some (.string value) => value
  | _ => ""

/-- The arguments among the parameters of a call; whatever is no object counts as none. -/
def argumentsOf (parameters : Json) : Arguments :=
  match parameter? parameters "arguments" with
  | some (.object fields) => fields
  | _ => []

def greeting (asked : String) : Json :=
  .object [("protocolVersion", .string (speakVersion asked)),
    ("capabilities", .object [("tools", .object [])]),
    ("serverInfo", .object [("name", .string CommandLine.programName),
      ("version", .string CommandLine.programVersion)])]

/-- The features that the server does without, by the methods that would need them. -/
def missingFeatures : List (String × String) :=
  [("resources/list", "resources"), ("resources/templates/list", "resources"),
    ("resources/read", "resources"), ("prompts/list", "prompts"), ("prompts/get", "prompts"),
    ("logging/setLevel", "logging")]

def respond (method : String) (parameters : Json) : Except Refusal Json :=
  if method = "initialize" then .ok (greeting (textParameter parameters "protocolVersion"))
  else if method = "ping" then .ok (.object [])
  else if method = "tools/list" then
    .ok (.object [("tools", .array (Tool.all.map Tool.describe))])
  else
    match missingFeatures.lookup method with
    | some feature => .error (.unsupported feature)
    | none => .error (.unknownMethod method)

def Reply.toJson (reply : Reply) : Json :=
  .object ([("content", CallLog.content [reply.text])] ++
    if reply.isError then [("isError", .bool true)] else [])

/-- Calls the tool that the parameters of a request name, if there is one. -/
def callNamed (server : ToolServer) (tree : FileTree) (parameters : Json) (moment : Moment) :
    Except Refusal Called :=
  let name := textParameter parameters "name"
  match Tool.ofName? name with
  | some tool => .ok (server.call tree tool (argumentsOf parameters) moment)
  | none => .error (.unknownTool name)

end ToolServer

end ImportAudit
