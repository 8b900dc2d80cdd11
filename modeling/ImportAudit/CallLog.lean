import ImportAudit.FileTree
import ImportAudit.Json

/-!
# The call log

Every call of a tool leaves one line in a file that only ever grows. Long texts among the
arguments are logged by their length, so that the log stays readable. A call is dated in the
universal time zone, by the seconds since the start of 1970.
-/

namespace ImportAudit

namespace Calendar

structure Date where
  year : Int
  month : Nat
  day : Nat
  deriving DecidableEq, Repr

/-- The date of a day counted from the first of January 1970. Years are counted from March, so
that a leap day is the last day of its year, in eras of 400 years. -/
def Date.ofDays (days : Int) : Date :=
  let shifted := days + 719468
  let era := shifted.fdiv 146097
  let dayOfEra := (shifted - era * 146097).toNat
  let yearOfEra :=
    (dayOfEra - dayOfEra / 1460 + dayOfEra / 36524 - dayOfEra / 146096) / 365
  let dayOfYear := dayOfEra - (365 * yearOfEra + yearOfEra / 4 - yearOfEra / 100)
  let monthFromMarch := (5 * dayOfYear + 2) / 153
  let day := dayOfYear - (153 * monthFromMarch + 2) / 5 + 1
  let month := if monthFromMarch < 10 then monthFromMarch + 3 else monthFromMarch - 9
  ⟨era * 400 + yearOfEra + (if month ≤ 2 then 1 else 0), month, day⟩

def padded (width : Nat) (number : Nat) : String :=
  let digits := toString number
  String.ofList (List.replicate (width - digits.length) '0') ++ digits

/-- The date and time of a moment, to the second. -/
def utcText (seconds : Int) : String :=
  let date := Date.ofDays (seconds.fdiv 86400)
  let second := (seconds.fmod 86400).toNat
  padded 4 date.year.toNat ++ "-" ++ padded 2 date.month ++ "-" ++ padded 2 date.day ++ "T" ++
    padded 2 (second / 3600) ++ ":" ++ padded 2 (second / 60 % 60) ++ ":" ++
    padded 2 (second % 60) ++ "Z"

end Calendar

namespace CallLog

/-! ## Arguments -/

/-- The greatest length in bytes at which a text argument is logged as it is. -/
def longestText : Nat := 64

/-- How one argument is logged: a long text that is not to be kept leaves its length under a name
of its own. -/
def loggedArgument (keep : List String) : String × Json → String × Json
  | (name, .string text) =>
    if longestText < text.utf8ByteSize && !keep.contains name then
      (name ++ "_len", .integer text.utf8ByteSize)
    else (name, .string text)
  | argument => argument

/-- The arguments of a call as they are logged, ordered by name. Where two arguments are logged
under one name, the later one stays. -/
def sanitize (keep : List String) (arguments : List (String × Json)) : List (String × Json) :=
  Json.orderFields (arguments.map (loggedArgument keep))

/-! ## Responses -/

def textContent (text : String) : Json :=
  .object [("type", .string "text"), ("text", .string text)]

/-- The content of a response of several texts; without texts there is none. -/
def content : List String → Json
  | [] => .null
  | texts => .array (texts.map textContent)

def responseBytes (texts : List String) : Nat :=
  ((content texts).render .safe).utf8ByteSize

/-! ## Entries -/

structure Entry where
  time : String
  tool : String
  project : String
  parameters : Option (List (String × Json))
  durationMilliseconds : Int
  responseBytes : Int
  toolError : Bool
  error : Option String

/-- An optional field that is left out when it is empty. -/
def fieldUnlessEmpty (name value : String) : List (String × Json) :=
  if value = "" then [] else [(name, .string value)]

/-- The entry as structured data. The project is left out if there is none. -/
def Entry.toJson (entry : Entry) : Json :=
  .object (
    [("ts", .string entry.time), ("tool", .string entry.tool)] ++
    fieldUnlessEmpty "project" entry.project ++
    [("params", (entry.parameters.map fun fields => (Json.object fields).ordered).getD .null),
      ("duration_ms", .integer entry.durationMilliseconds),
      ("response_bytes", .integer entry.responseBytes),
      ("tool_error", .bool entry.toolError),
      ("error", (entry.error.map Json.string).getD .null)])

def Entry.line (entry : Entry) : String :=
  entry.toJson.render .safe ++ "\n"

end CallLog

/-- A call log that is open, by the place of its file. -/
structure CallLog where
  place : List String
  deriving DecidableEq, Repr

namespace CallLog

/-- Opens a call log for appending. The directories on the way and the file itself are made where
they are missing. Without a path nothing is logged. -/
def openAt (tree : FileTree) (path : String) : Except Fault (Option CallLog × FileTree) :=
  if path = "" then .ok (none, tree)
  else
    match tree.makeDirectories (Path.dir path) with
    | .error fault => .error (.during .callLogDirectory fault)
    | .ok tree =>
      match tree.writable path with
      | .error fault => .error (.during .callLogFile fault)
      | .ok place =>
        match FileTree.nodeAt? tree.top place with
        | some _ => .ok (some ⟨place⟩, tree)
        | none => .ok (some ⟨place⟩, tree.put place (.file .empty 0))

/-- Appends an entry. A log whose file was taken away has nowhere to append to. -/
def append (log : CallLog) (entry : Entry) (tree : FileTree) : FileTree :=
  match FileTree.nodeAt? tree.top log.place with
  | some (.file content modified) =>
    tree.put log.place (.file (content ++ entry.line.toUTF8) modified)
  | _ => tree

end CallLog

end ImportAudit
