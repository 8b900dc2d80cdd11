import ImportAudit.Extraction
import ImportAudit.Number.Shortest

/-!
# The result cache

Extraction results by fingerprint and path, each valid for one size and modification time of the
file. The cache holds a bounded number of results and gives up the one that was touched longest
ago; a result counts as touched when it is put and when it is found, even if it is out of date.
-/

namespace ImportAudit.Cache

/-- A result with the size and modification time of the file that it was read from. -/
structure Entry where
  key : String
  size : Int
  modified : Int
  result : Extraction
  deriving DecidableEq, Repr

/-- Results from the most to the least recently touched, with the counts of the cache. -/
structure Result where
  capacity : Nat
  entries : List Entry
  hits : Nat
  misses : Nat
  evictions : Nat
  deriving DecidableEq, Repr

namespace Result

def defaultCapacity : Nat := 10000

/-- An empty cache. A capacity of zero asks for the default, and a negative one is refused. -/
def new (capacity : Int) : Except Fault Result :=
  if capacity < 0 then .error (.during .resultCache .capacity)
  else .ok ⟨if capacity = 0 then defaultCapacity else capacity.toNat, [], 0, 0, 0⟩

def default : Result := ⟨defaultCapacity, [], 0, 0, 0⟩

/-- The key of a path under a fingerprint: both, divided by a NUL character. -/
def key (fingerprint path : String) : String :=
  fingerprint ++ "\x00" ++ path

/-- The path of a key: what stands after its first NUL character. -/
def pathOfKey (key : String) : String :=
  String.ofList ((key.toList.dropWhile (· != '\x00')).drop 1)

def size (cache : Result) : Nat := cache.entries.length

def find? (cache : Result) (key : String) : Option Entry :=
  cache.entries.find? (·.key == key)

/-- The entries without that of a key. -/
def others (cache : Result) (key : String) : List Entry :=
  cache.entries.filter (·.key != key)

/-- Looks up the result of a path. An entry that is found becomes the most recently touched one;
it is served only if the size and the time are those of its file. -/
def get (cache : Result) (fingerprint path : String) (size modified : Int) :
    Option Extraction × Result :=
  let key := key fingerprint path
  match cache.find? key with
  | none => (none, { cache with misses := cache.misses + 1 })
  | some entry =>
    let touched := { cache with entries := entry :: cache.others key }
    if entry.size = size ∧ entry.modified = modified then
      (some entry.result, { touched with hits := cache.hits + 1 })
    else (none, { touched with misses := cache.misses + 1 })

/-- Puts a result in place of an earlier one of the same key; a new key may push out the entry
touched longest ago. -/
def put (cache : Result) (fingerprint path : String) (size modified : Int)
    (result : Extraction) : Result :=
  let key := key fingerprint path
  let entries := ⟨key, size, modified, result⟩ :: cache.others key
  { cache with
    entries := entries.take cache.capacity
    evictions := cache.evictions + (entries.length - cache.capacity) }

/-- Removes the results of a path under every fingerprint; each counts as given up. The number of
results removed is returned with the cache. -/
def invalidate (cache : Result) (path : String) : Nat × Result :=
  let kept := cache.entries.filter fun entry => pathOfKey entry.key != path
  let removed := cache.entries.length - kept.length
  (removed, { cache with entries := kept, evictions := cache.evictions + removed })

/-- Removes all results; each counts as given up. -/
def purge (cache : Result) : Result :=
  { cache with entries := [], evictions := cache.evictions + cache.entries.length }

/-- The share of look-ups that were served, zero before the first. -/
def hitRate (cache : Result) : Number.Binary :=
  (Number.Binary.ofRatio? false cache.hits (cache.hits + cache.misses)).getD .zero

end Result

end ImportAudit.Cache
