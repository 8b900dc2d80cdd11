import ImportAudit.Text.Quoted
import ImportAudit.Text.Separated

/-!
# Faults

What can go wrong, as causes. A fault names its cause; the activity during which it arose is
wrapped around it, and the wording of both is in one place.
-/

namespace ImportAudit

/-- Why the file system refuses a request. -/
inductive Reason
  | notExist
  | notDirectory
  | isDirectory
  | tooManyLinks
  | invalidArgument
  | nameTooLong
  deriving DecidableEq, Repr

def Reason.message : Reason → String
  | .notExist => "no such file or directory"
  | .notDirectory => "not a directory"
  | .isDirectory => "is a directory"
  | .tooManyLinks => "too many levels of symbolic links"
  | .invalidArgument => "invalid argument"
  | .nameTooLong => "file name too long"

inductive Activity
  | discovery
  | indexing (file : String)
  | statFile
  | readFile
  | extraction
  | scan
  | pool
  | projectFolder
  | writeReport
  | readPath (path : String)
  | watchPath (path : String)
  | callLogDirectory
  | callLogFile
  | readConfig
  | unmarshalConfig
  | validateConfig
  | resultCache
  | toolScan
  deriving DecidableEq, Repr

/-- The words put before the message of a fault that arose during an activity. -/
def Activity.label : Activity → String
  | .discovery => "file discovery failed"
  | .indexing file => "failed to index " ++ file
  | .statFile => "failed to stat file"
  | .readFile => "failed to read file"
  | .extraction => "extraction failed"
  | .scan => "scan cancelled"
  | .pool => "worker pool cancelled"
  | .projectFolder => "invalid project folder"
  | .writeReport => "failed to write report"
  | .readPath path => "read " ++ path
  | .watchPath path => "failed to watch " ++ path
  | .callLogDirectory => "mcplog: create log directory"
  | .callLogFile => "mcplog: open log file"
  | .readConfig => "read config"
  | .unmarshalConfig => "unmarshal config"
  | .validateConfig => "validate config"
  | .resultCache => "failed to create LRU cache"
  | .toolScan => "scan failed"

inductive ValueFault
  | integer (value : String) (outOfRange : Bool)
  | truth (value : String)
  | list (cause : Text.Separated.Fault)
  deriving DecidableEq, Repr

def ValueFault.message : ValueFault → String
  | .integer value outOfRange =>
    "strconv.ParseInt: parsing " ++ Text.quoted value ++
      (if outOfRange then ": value out of range" else ": invalid syntax")
  | .truth value => "strconv.ParseBool: parsing " ++ Text.quoted value ++ ": invalid syntax"
  | .list cause => cause.message

/-- The causes of failure, and `during` for the activity around a cause. -/
inductive Fault
  | unknownParseMode (value : String)
  | unknownMatchMode (value : String)
  | unknownFormat (value : String)
  | unknownLogLevel (value : String)
  | unknownLogFormat (value : String)
  | invalidEncoding (file : String)
  | invalidPattern (pattern : String)
  | invalidIgnorePattern (pattern : String)
  | system (operation path : String) (reason : Reason)
  | cancelled
  | notDirectory (path : String)
  | fileLimit (files : Int)
  | memoryLimit (held more limit : Int)
  | capacity
  | poolStopped
  | handlerMissing
  | watcherStopped
  | watcherStarted
  | emptyMarkerToken
  | unknownMarkerKind (kind : String)
  | negativeWorkers (workers : Int)
  | configSyntax
  | configShape
  | unknownFlag (name : String)
  | unknownShorthand (letter : Char) (given : String)
  | missingFlagValue (name : String)
  | badFlagSyntax (word : String)
  | invalidFlagValue (value flag : String) (cause : ValueFault)
  | helpRequested
  | unexpectedArgument (argument command : String)
  | projectRequired
  | nameRequired
  | unknownComponent (name : String)
  | during (activity : Activity) (cause : Fault)
  deriving DecidableEq, Repr

namespace Fault

def message : Fault → String
  | unknownParseMode value => "unknown parse mode: " ++ Text.quoted value
  | unknownMatchMode value => "unknown match mode: " ++ Text.quoted value
  | unknownFormat value => "unknown report format: " ++ Text.quoted value
  | unknownLogLevel value => "unknown log level " ++ Text.quoted value
  | unknownLogFormat value => "unknown log format " ++ Text.quoted value
  | invalidEncoding file => file ++ ": source is not valid UTF-8"
  | invalidPattern pattern => "invalid exclude pattern: " ++ pattern
  | invalidIgnorePattern pattern => "invalid exclude pattern: " ++ Text.quoted pattern
  | system operation path reason => operation ++ " " ++ path ++ ": " ++ reason.message
  | cancelled => "context canceled"
  | notDirectory path => path ++ " is not a directory"
  | fileLimit files => "file cache limit reached: " ++ toString files ++ " files"
  | memoryLimit held more limit =>
    "file cache memory limit reached: " ++ toString held ++ " + " ++ toString more ++
      " bytes exceeds " ++ toString limit
  | capacity => "must provide a positive size"
  | poolStopped => "worker pool is stopped"
  | handlerMissing => "change handler is required"
  | watcherStopped => "watcher already stopped"
  | watcherStarted => "watcher already started"
  | emptyMarkerToken => "export marker token must not be empty"
  | unknownMarkerKind kind => "unknown export marker kind " ++ Text.quoted kind
  | negativeWorkers workers => "workers must not be negative, got " ++ toString workers
  | configSyntax => "While parsing config: ..."
  | configShape => "..."
  | unknownFlag name => "unknown flag: --" ++ name
  | unknownShorthand letter given =>
    "unknown shorthand flag: " ++ Text.quotedChar letter ++ " in -" ++ given
  | missingFlagValue name => "flag needs an argument: --" ++ name
  | badFlagSyntax word => "bad flag syntax: " ++ word
  | invalidFlagValue value flag cause =>
    "invalid argument " ++ Text.quoted value ++ " for " ++ Text.quoted flag ++ " flag: " ++
      cause.message
  | helpRequested => "pflag: help requested"
  | unexpectedArgument argument command =>
    "unknown command " ++ Text.quoted argument ++ " for " ++ Text.quoted command
  | projectRequired => "project is required"
  | nameRequired => "name is required"
  | unknownComponent name => "component not found: " ++ name
  | during activity cause => activity.label ++ ": " ++ cause.message

/-- The cause of a fault, without the activities around it. -/
def cause : Fault → Fault
  | during _ inner => inner.cause
  | fault => fault

end Fault

end ImportAudit
