import ImportAudit.Extraction
import ImportAudit.Path
import ImportAudit.Text.Lowercase

/-!
# Components and the index of a project

A component file declares the component named by its stem, the file name up to its first dot; stems
are not made unique. The index of a project is everything read in one scan of a source tree, filed
by path.
-/

namespace ImportAudit

/-- A component file and the name that it stands for. -/
structure Component where
  file : String
  name : String
  deriving DecidableEq, Repr, Inhabited

namespace Component

def defaultExtension : String := ".tsx"

/-- The name of a component file: its last path element, either slash dividing, up to the first
dot. -/
def stem (file : String) : String :=
  String.ofList ((Path.base (Text.replaceChar '\\' '/' file)).toList.takeWhile (· != '.'))

def ofFile (file : String) : Component :=
  ⟨file, stem file⟩

end Component

/-- The component candidates of a project, in file order. -/
structure Catalog where
  extension : String
  components : List Component
  deriving DecidableEq, Repr

namespace Catalog

def extensionOrDefault (extension : String) : String :=
  if extension = "" then Component.defaultExtension else extension

/-- The candidates among the files: those whose path ends with the extension. -/
def ofFiles (files : List String) (extension : String) : Catalog :=
  let extension := extensionOrDefault extension
  ⟨extension, (files.filter fun file => Text.endsWith extension.toList file.toList).map
    Component.ofFile⟩

/-- The names of the candidates, in order and with duplicates. -/
def names (catalog : Catalog) : List String :=
  catalog.components.map (·.name)

/-- The candidates whose name or file contains the keyword, letter case aside; the empty keyword
is in every name. -/
def search (catalog : Catalog) (keyword : String) : List Component :=
  let wanted := Text.lower keyword
  catalog.components.filter fun component =>
    Text.contains (Text.lower component.name) wanted ||
      Text.contains (Text.lower component.file) wanted

def named (catalog : Catalog) (name : String) : List Component :=
  catalog.components.filter (·.name == name)

def filesNamed (catalog : Catalog) (name : String) : List String :=
  (catalog.named name).map (·.file)

/-- The candidate of a file; of several, the last. -/
def ofFile? (catalog : Catalog) (file : String) : Option Component :=
  catalog.components.reverse.find? (·.file == file)

end Catalog

/-! ## The index -/

/-- Everything read in one scan. Files are in discovery order; a file without declarations has no
entry among the declarations. -/
structure Index where
  root : String
  files : List String
  imports : List (String × ImportRecord)
  declarations : List (String × List Declaration)
  components : List Component
  deriving DecidableEq, Repr

namespace Index

/-- All declarations, by file in discovery order and then by line. -/
def declarationsInOrder (index : Index) : List Declaration :=
  index.files.flatMap fun file => (index.declarations.lookup file).getD []

/-- The import records of the files, in discovery order. -/
def importsInOrder (index : Index) : List ImportRecord :=
  index.files.filterMap fun file => index.imports.lookup file

/-- Every import specifier of the project, in discovery order and with duplicates. -/
def surface (index : Index) : List String :=
  index.importsInOrder.flatMap (·.names)

end Index

end ImportAudit
