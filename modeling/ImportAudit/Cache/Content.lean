import ImportAudit.FileTree
import ImportAudit.Log

/-!
# The content cache

File contents, kept as they were when they were first read. Two limits, on the number of files
and on their bytes, keep new files out; what is held already is always served. Every read is
counted once: as a hit, as a load, or as a miss when it fails.
-/

namespace ImportAudit.Cache

/-- Contents by the path they were asked for, with the limits and the counts of the cache; `bytes`
keeps account of the bytes held. A limit that is not positive limits nothing. -/
structure Content where
  maxFiles : Int
  maxBytes : Int
  entries : List (String × ByteArray)
  bytes : Nat
  loaded : Nat
  hits : Nat
  misses : Nat
  mapFailures : Nat

namespace Content

def new (maxFiles maxBytes : Int) : Content :=
  ⟨maxFiles, maxBytes, [], 0, 0, 0, 0, 0⟩

/-- An empty cache with the limits used when none are asked for: ten thousand files, one
gibibyte. -/
def default : Content := new 10000 1073741824

def unbounded : Content := new 0 0

def size (cache : Content) : Nat := cache.entries.length

def get? (cache : Content) (path : String) : Option ByteArray :=
  cache.entries.lookup path

/-- The warning that a node could not be mapped into memory and is read instead. -/
def mapWarning (path : String) : Log.Record :=
  ⟨.warn, "mmap failed, reading file instead",
    [("file", .string path), ("error", .string "no such device")]⟩

/-- What loading a path brings: its content or a fault, and whether mapping it failed. -/
structure Load where
  outcome : Except Fault ByteArray
  mapFailed : Bool

/-- Loads a path within the limits. The number of files is checked before the path is opened, the
number of bytes after. An empty file has nothing to map; any other file is read where it cannot be
mapped, and a directory can be neither mapped nor read. -/
def loadWhere (mappable : Bool) (cache : Content) (tree : FileTree) (path : String) : Load :=
  if 0 < cache.maxFiles ∧ cache.maxFiles ≤ cache.size then
    ⟨.error (.fileLimit cache.maxFiles), false⟩
  else
    match tree.openNode path with
    | .error fault => ⟨.error fault, false⟩
    | .ok node =>
      if 0 < cache.maxBytes ∧ cache.maxBytes < (cache.bytes + node.size : Nat) then
        ⟨.error (.memoryLimit cache.bytes node.size cache.maxBytes), false⟩
      else
        match node with
        | .file content _ => ⟨.ok content, !mappable && content.size != 0⟩
        | _ => ⟨.error (.during (.readPath path) (.system "read" path .isDirectory)), true⟩

/-- Loads a path where files can be mapped. -/
def load (cache : Content) (tree : FileTree) (path : String) : Load :=
  cache.loadWhere true tree path

/-- What a read brings: the content or a fault, the cache afterwards, and what was logged. -/
structure Reading where
  outcome : Except Fault ByteArray
  cache : Content
  log : List Log.Record

/-- Reads a path through the cache, on a device whose files can be mapped or not. -/
def readWhere (mappable : Bool) (cache : Content) (tree : FileTree) (path : String) : Reading :=
  match cache.get? path with
  | some content => ⟨.ok content, { cache with hits := cache.hits + 1 }, []⟩
  | none =>
    let loaded := cache.loadWhere mappable tree path
    let failures := cache.mapFailures + (if loaded.mapFailed then 1 else 0)
    let log := if loaded.mapFailed then [mapWarning path] else []
    match loaded.outcome with
    | .ok content =>
      ⟨.ok content,
        { cache with
          entries := (path, content) :: cache.entries
          bytes := cache.bytes + content.size
          loaded := cache.loaded + 1
          mapFailures := failures },
        log⟩
    | .error fault =>
      ⟨.error fault, { cache with misses := cache.misses + 1, mapFailures := failures }, log⟩

def read (cache : Content) (tree : FileTree) (path : String) : Reading :=
  cache.readWhere true tree path

/-- Forgets all contents; the counts stay. -/
def close (cache : Content) : Content :=
  { cache with entries := [], bytes := 0 }

end Content

end ImportAudit.Cache
