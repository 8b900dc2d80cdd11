import ImportAudit.CommandLine.Command

/-!
# Help

The help of a command: what it does, how it is used, and a table of its flags in which the
purposes stand in one column.
-/

namespace ImportAudit.CommandLine

namespace Flag

def valueName (flag : Flag) : String :=
  match flag.kind with
  | .text => " string"
  | .truth => ""
  | .integer => " int"
  | .list => " strings"

def label (flag : Flag) : String :=
  let short :=
    match flag.letter with
    | some letter => "  -" ++ String.ofList [letter] ++ ", "
    | none => "      "
  short ++ "--" ++ flag.name ++ flag.valueName

def explanation (flag : Flag) : String :=
  if flag.shownDefault = "" then flag.purpose
  else flag.purpose ++ " (default " ++ flag.shownDefault ++ ")"

end Flag

def flagTable (flags : List Flag) : String :=
  let sorted := flags.mergeSort fun first second => first.name ≤ second.name
  let width := (sorted.map (·.label.length)).foldl Nat.max 0
  String.join (sorted.map fun flag =>
    flag.label ++ String.ofList (List.replicate (width - flag.label.length + 3) ' ') ++
      flag.explanation ++ "\n")

namespace Command

def brief : Command → String
  | scan => "Find exported intrafaces, types and components that nothing imports"
  | watch => "Rescan and rewrite the report whenever a source file changes"
  | serve => "Start an MCP server on stdio"
  | version => "Print version"
  | help => "Help about any command"

def description : Command → String
  | scan =>
    "importi scans <project_folder>/src for .ts and .tsx files, collects the\n" ++
    "exported intraface/type declarations and the component files, and reports\n" ++
    "every name that no import statement in the project mentions.\n\n" ++
    "The report is written to <project_folder>/unused_intrafaces.txt.\n\n" ++
    "Commands:\n" ++
    "  watch     Rescan whenever a source file changes\n" ++
    "  serve     Start an MCP server on stdio\n" ++
    "  version   Print version\n\n" ++
    "A project folder named like a command (watch, serve, version, help) must\n" ++
    "be given as a path, e.g. ./watch."
  | watch =>
    "Scans <project_folder> once, writes the report, then watches\n" ++
    "<project_folder>/src and repeats the scan after every batch of changes.\n" ++
    "Stops on SIGINT or SIGTERM."
  | serve =>
    "Start a Model Context Protocol server on stdin/stdout.\n\n" ++
    "Tools:\n" ++
    "  find_unused       unused intrafaces/types and components of a project\n" ++
    "  list_imports      import specifiers per file\n" ++
    "  list_exports      exported declarations\n" ++
    "  list_components   component candidates, filtered by keyword\n" ++
    "  get_component     files and usage of one component"
  | version => version.brief
  | help =>
    "Help provides help for any command in the application.\n" ++
    "Simply type importi help [path to command] for full details."

def synopsis : Command → String
  | scan => "importi <project_folder>"
  | watch => "importi watch <project_folder>"
  | serve => "importi serve"
  | version => "importi version"
  | help => "importi help [command]"

def commandList : String :=
  "Available Commands:\n" ++
    String.join ([help, serve, version, watch].map fun command =>
      "  " ++ command.word ++ String.ofList (List.replicate (12 - command.word.length) ' ') ++
        command.brief ++ "\n")

/-- The help of a command. The program itself lists its commands; the flags that all commands take
are its own. -/
def helpText (command : Command) : String :=
  let opening := command.description ++ "\n\nUsage:\n  " ++ command.synopsis ++ " [flags]\n"
  match command with
  | scan =>
    opening ++ "  importi [command]\n\n" ++ commandList ++ "\nFlags:\n" ++
      flagTable (command.helpFlag :: command.flags) ++
      "\nUse \"importi [command] --help\" for more information about a command.\n"
  | _ =>
    opening ++ "\nFlags:\n" ++ flagTable (command.helpFlag :: command.ownFlags) ++
      "\nGlobal Flags:\n" ++ flagTable commonFlags

end Command

end ImportAudit.CommandLine
