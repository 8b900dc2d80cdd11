import ImportAudit.Program
import ImportAudit.ToolServer.Message
import Std.Time.DateTime.Timestamp

/-!
# The command line

The outer layer: it reads the working directory, starts the program on it, writes back the files
that the program changed, and carries lines and events to and fro. The program knows the working
directory and what is below it, and takes it for the top of the file system.
-/

namespace ImportAudit

/-- Reads what stands at an entry of a directory. A link to a file is read as the file; what
cannot be read is left out. -/
partial def readEntry (entry : IO.FS.DirEntry) : IO (Option (String × Node)) := do
  try
    let path := entry.path
    let kind := (← path.symlinkMetadata).type
    let isDirectory ← path.isDir
    if kind == .dir then
      let inside ← (← path.readDir).toList.filterMapM readEntry
      return some (entry.fileName, .directory (inside.mergeSort fun a b => a.1 ≤ b.1))
    else if isDirectory then
      return some (entry.fileName, .link ".")
    else
      let time := (← path.metadata).modified
      return some (entry.fileName,
        .file (← IO.FS.readBinFile path) (time.sec * 1000000000 + time.nsec.toNat))
  catch _ => return none

def readTree : IO FileTree := do
  let entries ← (← (← IO.currentDir).readDir).toList.filterMapM readEntry
  return ⟨entries.mergeSort fun a b => a.1 ≤ b.1⟩

def writeBack (earlier later : FileTree) : IO Unit := do
  for (path, content) in earlier.newFiles later do
    IO.FS.createDirAll (Path.dir path)
    IO.FS.writeBinFile path content

def say (text : String) : IO Unit := do
  IO.print text
  (← IO.getStdout).flush

def logTo (logging : Log.Settings) (records : List Log.Record) : IO Unit := do
  for line in logging.lines records do
    IO.eprintln line

def carryOut (logging : Log.Settings) (earlier : FileTree) (progress : Progress) : IO Unit := do
  logTo logging progress.log
  writeBack earlier progress.tree
  say progress.output

/-- Watches until the process ends: looks for changes again and again. -/
partial def keepWatching (watching : Watching) (earlier : FileTree) : IO Unit := do
  IO.sleep (UInt32.ofNat watching.watcher.options.debounceMilliseconds.toNat)
  let tree ← readTree
  let (watching, progress) := watching.receive tree (Change.between earlier tree)
  match progress with
  | none => keepWatching watching tree
  | some progress =>
    carryOut watching.settings.logging tree progress
    keepWatching watching progress.tree

def presentMoment : IO ToolServer.Moment := do
  let now ← Std.Time.Timestamp.now
  return ⟨Calendar.utcText now.toSecondsSinceUnixEpoch.toInt, 0⟩

/-- Answers messages until there are no more. -/
partial def keepServing (server : ToolServer) (logging : Log.Settings) : IO Unit := do
  let line ← (← IO.getStdin).getLine
  if line.isEmpty then return
  let tree ← readTree
  let exchange := server.exchange tree line (← presentMoment)
  carryOut logging tree ⟨exchange.response.getD "", exchange.log, exchange.tree⟩
  keepServing exchange.server logging

def readEnvironment : IO (List (String × String)) :=
  Settings.variableNames.filterMapM fun name => do
    return (← IO.getEnv name).map fun value => (name, value)

end ImportAudit

open ImportAudit in
def main (words : List String) : IO UInt32 := do
  let tree ← readTree
  match Program.begin tree ⟨words, ← readEnvironment, false⟩ with
  | .ended ended =>
    carryOut ended.logging tree ⟨ended.output, ended.log, ended.tree⟩
    IO.eprint ended.error
    return UInt32.ofNat ended.code
  | .watching watching progress =>
    carryOut watching.settings.logging tree progress
    keepWatching watching progress.tree
    return 0
  | .serving server logging progress =>
    carryOut logging tree progress
    keepServing server logging
    return 0
