import ImportAudit.Proofs.Discovery
import ImportAudit.Proofs.FileTree.Following

/-!
# Names of discovered files

In a tree whose entries have names that a file system allows, what discovery finds is a path of
such names, or the root itself.
-/

namespace ImportAudit

structure EntryName (name : String) : Prop extends Path.IsName name where
  nulFree : '\x00' ∉ name.toList

instance (name : String) : Decidable (EntryName name) :=
  decidable_of_iff (Path.IsName name ∧ '\x00' ∉ name.toList)
    ⟨fun ⟨isName, nulFree⟩ => ⟨isName, nulFree⟩, fun isEntry => ⟨isEntry.toIsName, isEntry.nulFree⟩⟩

mutual

/-- Every entry at and below a node has a name that is allowed. -/
def Node.WellNamed : Node → Prop
  | .directory entries => EntriesWellNamed entries
  | .file _ _ => True
  | .link _ => True

/-- Every entry among some, and below them, has a name that is allowed. -/
def EntriesWellNamed : List (String × Node) → Prop
  | [] => True
  | (name, node) :: rest => EntryName name ∧ node.WellNamed ∧ EntriesWellNamed rest

end

mutual

/-- Whether a tree is well named can be decided by going through it. -/
def Node.decideWellNamed : (node : Node) → Decidable node.WellNamed
  | .directory entries => decideEntriesWellNamed entries
  | .file _ _ => .isTrue trivial
  | .link _ => .isTrue trivial

def decideEntriesWellNamed : (entries : List (String × Node)) → Decidable (EntriesWellNamed entries)
  | [] => .isTrue trivial
  | (name, node) :: rest =>
    have := node.decideWellNamed
    have := decideEntriesWellNamed rest
    inferInstanceAs (Decidable (EntryName name ∧ node.WellNamed ∧ EntriesWellNamed rest))

end

instance (node : Node) : Decidable node.WellNamed := node.decideWellNamed

namespace FileTree

theorem wellNamed_of_lookup
    {entries : List (String × Node)} {name : String} {node : Node}
    (wellNamed : EntriesWellNamed entries) (found : entries.lookup name = some node) :
    node.WellNamed := by
  induction entries with
  | nil => cases found
  | cons entry rest inductionHypothesis =>
    obtain ⟨other, here⟩ := entry
    obtain ⟨_, hereWellNamed, restWellNamed⟩ := wellNamed
    by_cases same : (name == other) = true
    · rw [List.lookup_cons, same] at found
      cases found
      exact hereWellNamed
    · rw [List.lookup_cons, eq_false_of_ne_true same] at found
      exact inductionHypothesis restWellNamed found

/-- Everything inside a tree is named as well as the tree. -/
theorem wellNamed_of_nodeAt?
    {top node : Node} {place : List String} (wellNamed : top.WellNamed)
    (found : nodeAt? top place = some node) : node.WellNamed := by
  induction place generalizing top with
  | nil =>
    cases found
    exact wellNamed
  | cons name rest inductionHypothesis =>
    rw [nodeAt?] at found
    cases top with
    | directory entries =>
      cases child : entries.lookup name with
      | none => simp [Node.entries, child] at found
      | some next =>
        simp only [Node.entries, child] at found
        exact inductionHypothesis (wellNamed_of_lookup wellNamed child) found
    | file content modified => simp [Node.entries] at found
    | link target => simp [Node.entries] at found

theorem nodeAt?_of_follow
    {tree : FileTree} {followLast : Bool} {links : Nat} {here parts place : List String}
    {node : Node} (found : follow tree followLast links here parts = .ok (.taken place node)) :
    nodeAt? tree.top place = some node := by
  fun_induction follow tree followLast links here parts <;> simp_all

/-- Following a path ends at the place of the node that it finds. -/
theorem nodeAt?_of_find
    {tree : FileTree} {followLast : Bool} {path : String} {place : List String} {node : Node}
    (found : tree.find followLast path = .ok (place, node)) :
    nodeAt? tree.top place = some node := by
  unfold find at found
  cases located : tree.locate followLast path with
  | error reason => simp [located] at found
  | ok spot =>
    cases spot with
    | free place => simp [located] at found
    | taken place node =>
      simp only [located, Except.ok.injEq, Prod.mk.injEq] at found
      obtain ⟨rfl, rfl⟩ := found
      unfold locate at located
      split at located
      · cases located
      · exact nodeAt?_of_follow located

theorem wellNamed_of_linkStat
    {tree : FileTree} {path : String} {node : Node} (wellNamed : tree.top.WellNamed)
    (looked : tree.linkStat path = .ok node) : node.WellNamed := by
  unfold linkStat at looked
  cases found : tree.find false path with
  | error reason => simp [found] at looked
  | ok spot =>
    simp only [found, Except.ok.injEq] at looked
    subst looked
    exact wellNamed_of_nodeAt? wellNamed (nodeAt?_of_find found)

end FileTree

namespace Discovery

def IsBelow (file : String) : Prop :=
  ∃ names, (∀ name ∈ names, EntryName name) ∧ file = Path.below names

theorem isBelow_pathText
    {here : List String} (nonempty : here ≠ []) (areNames : ∀ name ∈ here, EntryName name) :
    IsBelow (pathText here) := by
  have reversed : ∀ name ∈ here.reverse, EntryName name :=
    fun name member => areNames name (List.mem_reverse.mp member)
  refine ⟨here.reverse, reversed, ?_⟩
  rw [pathText, Path.below_of_ne_nil (List.reverse_ne_nil_iff.mpr nonempty)]
  exact fun name member => (reversed name member).toIsName

mutual

/-- A file is found by a path of names that lead down. -/
theorem isBelow_of_mem_filesAt
    (options : Options) (here : List String) (nonempty : here ≠ [])
    (areNames : ∀ name ∈ here, EntryName name) (node : Node) (wellNamed : node.WellNamed)
    (file : String) (found : file ∈ filesAt options here node) : IsBelow file := by
  have leaf : ∀ {excluded has : Bool},
      file ∈ (if excluded then [] else if has then [pathText here] else []) → IsBelow file := by
    intro excluded has member
    cases excluded with
    | true => cases member
    | false =>
      cases has with
      | true =>
        rw [List.mem_singleton.mp member]
        exact isBelow_pathText nonempty areNames
      | false => cases member
  cases node with
  | directory entries =>
    simp only [filesAt] at found
    split at found
    · cases found
    · exact isBelow_of_mem_filesAmong options here areNames entries wellNamed file found
  | file content modified =>
    simp only [filesAt] at found
    exact leaf found
  | link target =>
    simp only [filesAt] at found
    exact leaf found

theorem isBelow_of_mem_filesAmong
    (options : Options) (here : List String) (areNames : ∀ name ∈ here, EntryName name)
    (entries : List (String × Node)) (wellNamed : EntriesWellNamed entries) (file : String)
    (found : file ∈ filesAmong options here entries) : IsBelow file := by
  cases entries with
  | nil => simp [filesAmong] at found
  | cons entry rest =>
    obtain ⟨name, node⟩ := entry
    obtain ⟨isName, nodeWellNamed, restWellNamed⟩ := wellNamed
    rw [filesAmong, List.mem_append] at found
    rcases found with first | later
    · exact isBelow_of_mem_filesAt options (name :: here) (List.cons_ne_nil name here)
        (List.forall_mem_cons.mpr ⟨isName, areNames⟩) node nodeWellNamed file first
    · exact isBelow_of_mem_filesAmong options here areNames rest restWellNamed file later

end

theorem isBelow_of_mem_files
    {tree : FileTree} {root : String} {options : Options} {files : List String} {file : String}
    (wellNamed : tree.top.WellNamed) (found : Discovery.files tree root options = .ok files)
    (member : file ∈ files) : IsBelow file := by
  unfold Discovery.files at found
  cases bad : badPattern? options.exclude with
  | some pattern => simp [bad] at found
  | none =>
    cases top : tree.linkStat root with
    | error fault => simp [bad, top] at found
    | ok node =>
      have nodeWellNamed := FileTree.wellNamed_of_linkStat wellNamed top
      have itself : file ∈ (if hasExtension options.extensions (Path.base root) then ["."] else [])
          → IsBelow file := by
        intro isRoot
        split at isRoot
        · rw [List.mem_singleton.mp isRoot]
          exact ⟨[], by simp, by decide⟩
        · cases isRoot
      cases node with
      | directory entries =>
        simp only [bad, top, Except.ok.injEq] at found
        subst found
        exact isBelow_of_mem_filesAmong options [] (by simp) entries nodeWellNamed file member
      | file content modified =>
        simp only [bad, top, Except.ok.injEq] at found
        subst found
        exact itself member
      | link target =>
        simp only [bad, top, Except.ok.injEq] at found
        subst found
        exact itself member

end Discovery

end ImportAudit
