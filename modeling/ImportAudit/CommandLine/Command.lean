import ImportAudit.CommandLine.Flag

/-!
# Commands

The commands, the flags of each, and which command a command line means: the first word that is
neither a flag nor the value of one names it, and without such a name a project is scanned.
-/

namespace ImportAudit.CommandLine

inductive Command
  | scan
  | watch
  | serve
  | version
  | help
  deriving DecidableEq, Repr

def programName : String := "importi"

def programVersion : String := "0.1.0-dev"

namespace Command

/-- The word that names a command; scanning has none. -/
def word : Command → String
  | scan => ""
  | watch => "watch"
  | serve => "serve"
  | version => "version"
  | help => "help"

def ofWord? (word : String) : Option Command :=
  [watch, serve, version, help].find? (·.word == word)

def title (command : Command) : String :=
  if command = scan then programName else programName ++ " " ++ command.word

def commonFlags : List Flag := [
  ⟨"config", none, .text, "config file (default <project_folder>/.importi.yaml)", ""⟩,
  ⟨"exclude", none, .list, "doublestar patterns (relative to src/) to skip", ""⟩,
  ⟨"format", none, .text, "report format: text, json, yaml", "\"text\""⟩,
  ⟨"log-format", none, .text, "log format: text, json", "\"text\""⟩,
  ⟨"log-level", none, .text, "log level: debug, info, warn, error", "\"warn\""⟩,
  ⟨"match-mode", none, .text,
    "how names are matched against imports: substring, exact, word", "\"substring\""⟩,
  ⟨"parse-mode", none, .text, "how imports are read: line, statement", "\"line\""⟩,
  ⟨"summary", none, .truth, "print a summary table to stdout", ""⟩,
  ⟨"workers", none, .integer, "extraction workers (0 = based on CPU count)", ""⟩]

def ownFlags : Command → List Flag
  | watch =>
    [⟨"debounce", none, .integer,
      "milliseconds to wait for more changes before rescanning", "200"⟩]
  | serve => [
    ⟨"log-file", none, .text, "append a JSON line per tool call to this file", ""⟩,
    ⟨"project", none, .text, "default project folder for tool calls", ""⟩]
  | _ => []

def helpFlag (command : Command) : Flag :=
  ⟨"help", some 'h', .truth,
    "help for " ++ (if command = scan then programName else command.word), ""⟩

def flags (command : Command) : List Flag :=
  commonFlags ++ command.ownFlags

end Command

/-! ## Finding the command -/

/-- Whether a word is a flag that takes the next word as its value. The flag for help is not known
here. -/
def takesNext (flags : List Flag) (word : String) : Bool :=
  match word.toList with
  | '-' :: '-' :: name =>
    !name.contains '=' &&
      !flags.any fun flag => flag.name == String.ofList name && flag.kind == .truth
  | ['-', letter] => letter != '=' && letter.utf8Size == 1
  | _ => false

def plainWords (flags : List Flag) : List String → List String
  | [] => []
  | word :: rest =>
    if word = "--" then []
    else if takesNext flags word then
      match rest with
      | _ :: next :: others => plainWords flags (next :: others)
      | _ => []
    else if word = "" || word.toList.head? = some '-' then plainWords flags rest
    else word :: plainWords flags rest

/-- The words without the first plain one that is the given word. -/
def withoutWord (flags : List Flag) (name : String) : List String → List String
  | [] => []
  | word :: rest =>
    if word = "--" then word :: rest
    else if takesNext flags word then
      match rest with
      | [] => [word]
      | value :: others => word :: value :: withoutWord flags name others
    else if word = name then rest
    else word :: withoutWord flags name rest

/-- The command that some words mean, and the words that are left for it. -/
def findCommand (words : List String) : Command × List String :=
  let flags := Command.scan.flags
  match plainWords flags words with
  | [] => (.scan, words)
  | name :: _ =>
    match Command.ofWord? name with
    | none => (.scan, words)
    | some command => (command, withoutWord flags name words)

/-! ## Actions -/

inductive Action
  | showHelp (command : Command)
  | showVersion
  | showUsage (line : String)
  | refuse (fault : Fault)
  | scan (project : String) (given : Given)
  | watch (project : String) (given : Given)
  | serve (given : Given)
  deriving DecidableEq, Repr

def usageLine (command : Command) : String :=
  "Usage: " ++ command.title ++ " <project_folder>"

def withoutArguments (command : Command) (given : Given) (action : Action) : Action :=
  match given.arguments with
  | [] => action
  | argument :: _ => .refuse (.unexpectedArgument argument command.title)

def withProject (command : Command) (given : Given) (action : String → Action) : Action :=
  match given.arguments with
  | [project] => action project
  | _ => .showUsage (usageLine command)

/-- What some words ask for. Faulty flags come first, then the wish for help, then the number of
arguments. -/
def Action.ofWords (words : List String) : Action :=
  let (command, words) := findCommand words
  match readWords (command.flags ++ [command.helpFlag]) Given.none words with
  | .error fault => .refuse fault
  | .ok given =>
    if given.isSet "help" then .showHelp command
    else
      match command with
      | .scan => withProject command given (.scan · given)
      | .watch => withProject command given (.watch · given)
      | .serve => withoutArguments command given (.serve given)
      | .version => withoutArguments command given .showVersion
      | .help => .showHelp (findCommand given.arguments).1

end ImportAudit.CommandLine
