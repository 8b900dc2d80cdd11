import ImportAudit.Fault
import ImportAudit.Path

/-!
# File trees

A file system as a value: files with content and modification time, directories, and symbolic
links. Its top is the working directory too, so a path that starts at the top and one that does not
are followed from the same place. Paths are followed the way a file system follows them, link by
link, and every refusal names its reason.
-/

namespace ImportAudit

/-- What stands at a place of a file tree. The entries of a directory are ordered by name. -/
inductive Node
  | file (content : ByteArray) (modified : Int)
  | directory (entries : List (String × Node))
  | link (target : String)
  deriving Inhabited

namespace Node

/-- Whether a node is a directory; a link is none, wherever it leads. -/
def isDirectory : Node → Bool
  | directory _ => true
  | _ => false

def entries : Node → List (String × Node)
  | directory entries => entries
  | _ => []

/-- The size that the file system reports for a directory. -/
def directorySize : Nat := 4096

def size : Node → Nat
  | file content _ => content.size
  | directory _ => directorySize
  | link target => target.utf8ByteSize

/-- The modification time of a node; only that of files matters. -/
def modified : Node → Int
  | file _ modified => modified
  | _ => 0

end Node

/-- A file system, by the entries of its top in the order of their names. -/
structure FileTree where
  entries : List (String × Node)
  deriving Inhabited

namespace FileTree

def empty : FileTree := ⟨[]⟩

def top (tree : FileTree) : Node := .directory tree.entries

/-! ## Entries of one directory -/

/-- Puts a node under a name into ordered entries, in place of what stood there. -/
def insertEntry (name : String) (node : Node) : List (String × Node) → List (String × Node)
  | [] => [(name, node)]
  | (other, kept) :: rest =>
    if name = other then (name, node) :: rest
    else if name < other then (name, node) :: (other, kept) :: rest
    else (other, kept) :: insertEntry name node rest

def removeEntry (name : String) (entries : List (String × Node)) : List (String × Node) :=
  entries.filter (·.1 != name)

/-! ## Places

A place is the list of names that leads to a node through real directories, from the top. -/

/-- The node at a place. -/
def nodeAt? (node : Node) : List String → Option Node
  | [] => some node
  | name :: rest =>
    match node.entries.lookup name with
    | some child => nodeAt? child rest
    | none => none

/-- The entries after putting a node at a place below them. Directories that are missing on the
way are made; whatever else stands on the way is replaced. -/
def putEntries (entries : List (String × Node)) : List String → Node → List (String × Node)
  | [], _ => entries
  | [name], node => insertEntry name node entries
  | name :: rest, node =>
    let below :=
      match entries.lookup name with
      | some child => child.entries
      | none => []
    insertEntry name (.directory (putEntries below rest node)) entries

def removeEntries (entries : List (String × Node)) : List String → List (String × Node)
  | [] => entries
  | [name] => removeEntry name entries
  | name :: rest =>
    match entries.lookup name with
    | some (.directory below) =>
      insertEntry name (.directory (removeEntries below rest)) entries
    | _ => entries

def put (tree : FileTree) (place : List String) (node : Node) : FileTree :=
  ⟨putEntries tree.entries place node⟩

def erase (tree : FileTree) (place : List String) : FileTree :=
  ⟨removeEntries tree.entries place⟩

/-! ## Following paths -/

/-- Where a path leads: to a node, or to a free name in a directory that exists. -/
inductive Spot
  | taken (place : List String) (node : Node)
  | free (place : List String)

/-- How many links are followed before the file system gives up. -/
def linkLimit : Nat := 40

/-- Where a path met at a place starts: there, or at the top. Places are given from last name to
first. -/
def startOf (path : String) (here : List String) : List String :=
  if Path.isRooted path then [] else here

/-- Follows the parts of a path from a place on, whose names are given from last to first. The
last part is followed through a link only if asked; `links` bounds the links still followed. -/
def follow (tree : FileTree) (followLast : Bool) (links : Nat) (here : List String)
    (parts : List String) : Except Reason Spot :=
  match parts with
  | [] =>
    match nodeAt? tree.top here.reverse with
    | some node => .ok (.taken here.reverse node)
    | none => .error .notExist
  | part :: rest =>
    if part = "" || part = "." then follow tree followLast links here rest
    else if part = ".." then follow tree followLast links (here.drop 1) rest
    else
      let place := (part :: here).reverse
      match nodeAt? tree.top place with
      | none => if rest.isEmpty then .ok (.free place) else .error .notExist
      | some (.directory entries) =>
        if rest.isEmpty then .ok (.taken place (.directory entries))
        else follow tree followLast links (part :: here) rest
      | some (.file content modified) =>
        if rest.isEmpty then .ok (.taken place (.file content modified))
        else .error .notDirectory
      | some (.link target) =>
        if rest.isEmpty && !followLast then .ok (.taken place (.link target))
        else
          match links with
          | 0 => .error .tooManyLinks
          | links + 1 =>
            follow tree followLast links (startOf target here) (Path.parts target ++ rest)
termination_by (links, parts.length)

/-- Where a path leads from the working directory. The empty path leads nowhere. -/
def locate (tree : FileTree) (followLast : Bool) (path : String) : Except Reason Spot :=
  if path = "" then .error .notExist
  else follow tree followLast linkLimit [] (Path.parts path)

/-- The node that a path leads to. -/
def find (tree : FileTree) (followLast : Bool) (path : String) :
    Except Reason (List String × Node) :=
  match tree.locate followLast path with
  | .error reason => .error reason
  | .ok (.free _) => .error .notExist
  | .ok (.taken place node) => .ok (place, node)

/-! ## Requests -/

/-- The node of a path, links followed. -/
def stat (tree : FileTree) (path : String) : Except Fault Node :=
  match tree.find true path with
  | .ok (_, node) => .ok node
  | .error reason => .error (.system "stat" path reason)

/-- The node of a path, a link at its end not followed. -/
def linkStat (tree : FileTree) (path : String) : Except Fault Node :=
  match tree.find false path with
  | .ok (_, node) => .ok node
  | .error reason => .error (.system "lstat" path reason)

def isDirectory (tree : FileTree) (path : String) : Bool :=
  match tree.stat path with
  | .ok node => node.isDirectory
  | .error _ => false

/-- The node of a path, opened for reading. -/
def openNode (tree : FileTree) (path : String) : Except Fault Node :=
  match tree.find true path with
  | .ok (_, node) => .ok node
  | .error reason => .error (.system "open" path reason)

def read (tree : FileTree) (path : String) : Except Fault ByteArray :=
  match tree.openNode path with
  | .error fault => .error fault
  | .ok (.file content _) => .ok content
  | .ok _ => .error (.system "read" path .isDirectory)

/-- Where a file of this path is written: the place of a file that exists, or a free one. -/
def writable (tree : FileTree) (path : String) : Except Fault (List String) :=
  match tree.locate true path with
  | .error reason => .error (.system "open" path reason)
  | .ok (.taken place (.file _ _)) => .ok place
  | .ok (.taken _ _) => .error (.system "open" path .isDirectory)
  | .ok (.free place) => .ok place

/-- Replaces the content of a file, or makes the file in a directory that exists. -/
def write (tree : FileTree) (path : String) (content : ByteArray) (modified : Int) :
    Except Fault FileTree :=
  match tree.writable path with
  | .error fault => .error fault
  | .ok place => .ok (tree.put place (.file content modified))

def makeDirectory (tree : FileTree) (path : String) : Except Fault FileTree :=
  match tree.locate true path with
  | .error reason => .error (.system "mkdir" path reason)
  | .ok (.free place) => .ok (tree.put place (.directory []))
  | .ok (.taken _ node) =>
    if node.isDirectory then .ok tree else .error (.system "mkdir" path .notDirectory)

/-- The paths that lead to a path step by step, the path itself last. -/
def leadingPaths (path : String) : List String :=
  let parts := Path.parts path
  (List.range parts.length).map fun count =>
    String.intercalate "/" (parts.take (count + 1))

def makeDirectories (tree : FileTree) (path : String) : Except Fault FileTree :=
  if tree.isDirectory path then .ok tree
  else
    (leadingPaths path).foldl (fun result step =>
      match result with
      | .error fault => .error fault
      | .ok tree => if step = "" then .ok tree else tree.makeDirectory step) (.ok tree)

/-- Removes what a path names, a directory with all its content; a link is removed itself. -/
def removeAll (tree : FileTree) (path : String) : FileTree :=
  match tree.find false path with
  | .ok (place, _) => tree.erase place
  | .error _ => tree

/-- The tree with a node at a cleaned path; the directories on the way are made. -/
def place (tree : FileTree) (path : String) (node : Node) : FileTree :=
  tree.put (Path.toClean path).elements node

/-- The tree with an empty directory at a cleaned path, unless one stands there. -/
def placeDirectory (tree : FileTree) (path : String) : FileTree :=
  if tree.isDirectory path then tree else tree.place path (.directory [])

mutual

/-- The files at and below a node, with their places from last name to first. -/
def filesBelow (here : List String) : Node → List (List String × ByteArray)
  | .file content _ => [(here.reverse, content)]
  | .directory entries => filesAmong here entries
  | .link _ => []

def filesAmong (here : List String) : List (String × Node) → List (List String × ByteArray)
  | [] => []
  | (name, node) :: rest => filesBelow (name :: here) node ++ filesAmong here rest

end

def files (tree : FileTree) : List (String × ByteArray) :=
  (filesAmong [] tree.entries).map fun (place, content) =>
    (String.intercalate "/" place, content)

/-! ## Comparing trees -/

mutual

/-- What stands at and below a node, with the content of files; directories come before what they
hold. -/
def listingBelow (here : List String) : Node → List (List String × Option ByteArray)
  | .file content _ => [(here.reverse, some content)]
  | .directory entries => (here.reverse, none) :: listingAmong here entries
  | .link _ => [(here.reverse, none)]

def listingAmong (here : List String) :
    List (String × Node) → List (List String × Option ByteArray)
  | [] => []
  | (name, node) :: rest => listingBelow (name :: here) node ++ listingAmong here rest

end

def listing (tree : FileTree) : List (String × Option ByteArray) :=
  (listingAmong [] tree.entries).map fun (place, content) =>
    (String.intercalate "/" place, content)

/-- The files of a tree that another one lacks or has with another content. -/
def newFiles (earlier later : FileTree) : List (String × ByteArray) :=
  let before := earlier.files
  later.files.filter fun (path, content) =>
    (before.lookup path).map (·.toList) != some content.toList

end FileTree

end ImportAudit
