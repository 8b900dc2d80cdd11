import ImportAudit.FileTree
import ImportAudit.Glob

/-!
# Discovery of source files

The files below a root whose name ends with one of the extensions, in the order of a walk: the
entries of each directory by name, a directory's content in the place of its name. What an exclude
pattern matches is skipped, a directory with all its content. Links are not followed.
-/

namespace ImportAudit.Discovery

structure Options where
  extensions : List String
  exclude : List String
  deriving DecidableEq, Repr

def sourceExtensions : List String := [".ts", ".tsx"]

def hasExtension (extensions : List String) (name : String) : Bool :=
  extensions.any fun extension => Text.endsWith extension.toList name.toList

/-- The text of a path below the root, given its names from last to first. -/
def pathText (reversed : List String) : String :=
  String.intercalate "/" reversed.reverse

def isExcluded (patterns : List String) (path : String) : Bool :=
  patterns.any fun pattern => Glob.matchesPath pattern path

mutual

/-- The files found at and below a node whose path has the given names, from last to first. -/
def filesAt (options : Options) (here : List String) : Node → List String
  | .directory entries =>
    if isExcluded options.exclude (pathText here) then [] else filesAmong options here entries
  | _ =>
    if isExcluded options.exclude (pathText here) then []
    else if hasExtension options.extensions (here.headD "") then [pathText here]
    else []

/-- The files found at and below some entries of the directory with the given names. -/
def filesAmong (options : Options) (here : List String) : List (String × Node) → List String
  | [] => []
  | (name, node) :: rest => filesAt options (name :: here) node ++ filesAmong options here rest

end

def badPattern? (patterns : List String) : Option String :=
  patterns.find? fun pattern => !Glob.isWellFormed pattern

/-- The files below a root, as paths relative to it. All patterns are checked before anything is
read. A root that is a file is found as `.` if its own name has an extension. -/
def files (tree : FileTree) (root : String) (options : Options) : Except Fault (List String) :=
  match badPattern? options.exclude with
  | some pattern => .error (.invalidPattern pattern)
  | none =>
    match tree.linkStat root with
    | .error fault => .error fault
    | .ok (.directory entries) => .ok (filesAmong options [] entries)
    | .ok _ =>
      .ok (if hasExtension options.extensions (Path.base root) then ["."] else [])

end ImportAudit.Discovery
