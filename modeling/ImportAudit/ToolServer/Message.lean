import ImportAudit.Json.Reading
import ImportAudit.ToolServer

/-!
# Messages

A client and a server exchange messages of one line each. A request carries an identifier that
its response repeats; a message without one wants no response.
-/

namespace ImportAudit.ToolServer

/-- What came of a message: the line of the response, if one is wanted, and the server, the tree
and the log afterwards. -/
structure Exchange where
  response : Option String
  server : ToolServer
  tree : FileTree
  log : List Log.Record

def malformedCode : Int := -32700

def messageLine (id : Json) (body : String × Json) : String :=
  Json.render .safe (.object [("jsonrpc", .string "2.0"), ("id", id), body]) ++ "\n"

def errorBody (code : Int) (message : String) : String × Json :=
  ("error", .object [("code", .integer code), ("message", .string message)])

def bodyOf : Except Refusal Json → String × Json
  | .ok value => ("result", value)
  | .error refusal => errorBody refusal.code refusal.message

def exchangeRequest (server : ToolServer) (tree : FileTree) (id request : Json)
    (moment : Moment) : Exchange :=
  let method := textParameter request "method"
  let parameters := (parameter? request "params").getD .null
  if method = "tools/call" then
    match server.callNamed tree parameters moment with
    | .ok called =>
      ⟨some (messageLine id ("result", called.reply.toJson)), called.server, called.tree,
        called.log⟩
    | .error refusal =>
      ⟨some (messageLine id (bodyOf (.error refusal))), server, tree, []⟩
  else ⟨some (messageLine id (bodyOf (respond method parameters))), server, tree, []⟩

def exchange (server : ToolServer) (tree : FileTree) (line : String) (moment : Moment) :
    Exchange :=
  match Json.parse? line with
  | none =>
    ⟨some (messageLine .null (errorBody malformedCode "Parse error")), server, tree, []⟩
  | some request =>
    match parameter? request "id" with
    | none => ⟨none, server, tree, []⟩
    | some .null => ⟨none, server, tree, []⟩
    | some id => exchangeRequest server tree id request moment

end ImportAudit.ToolServer
