import ImportAudit.Proofs.Discovery.Names
import Mathlib.Data.List.Lex

/-!
# The order of a walk

In a tree whose directories list their entries by name, discovery finds each file once, and the
names on the way to it grow from one file to the next: the walk is in the lexicographic order of
paths as lists of names.
-/

namespace ImportAudit

mutual

/-- The entries of every directory at and below a node are in the order of their names, which
differ. -/
def Node.Ordered : Node → Prop
  | .directory entries => EntriesOrdered entries
  | .file _ _ => True
  | .link _ => True

/-- Entries are in the order of their names, and so are those below them. -/
def EntriesOrdered : List (String × Node) → Prop
  | [] => True
  | (name, node) :: rest =>
    (∀ entry ∈ rest, name < entry.1) ∧ node.Ordered ∧ EntriesOrdered rest

end

/-- A name that comes before all others is none of them. -/
theorem lookup_of_lt
    {entries : List (String × Node)} {name : String}
    (less : ∀ entry ∈ entries, name < entry.1) : entries.lookup name = none := by
  rw [List.lookup_eq_none_iff]
  intro entry member
  rw [bne_iff_ne]
  exact fun same => String.lt_irrefl name (same ▸ less entry member)

theorem lookup_cons_of_ne
    {entries : List (String × Node)} {name other : String} (differs : name ≠ other)
    (node : Node) : ((other, node) :: entries).lookup name = entries.lookup name := by
  rw [List.lookup_cons, beq_eq_false_iff_ne.mpr differs]

namespace FileTree

theorem ordered_of_lookup
    {entries : List (String × Node)} {name : String} {node : Node}
    (ordered : EntriesOrdered entries) (found : entries.lookup name = some node) :
    node.Ordered := by
  induction entries with
  | nil => cases found
  | cons entry rest inductionHypothesis =>
    obtain ⟨other, here⟩ := entry
    obtain ⟨_, hereOrdered, restOrdered⟩ := ordered
    by_cases same : (name == other) = true
    · rw [List.lookup_cons, same] at found
      cases found
      exact hereOrdered
    · rw [List.lookup_cons, eq_false_of_ne_true same] at found
      exact inductionHypothesis restOrdered found

theorem ordered_of_nodeAt?
    {top node : Node} {place : List String} (ordered : top.Ordered)
    (found : nodeAt? top place = some node) : node.Ordered := by
  induction place generalizing top with
  | nil =>
    cases found
    exact ordered
  | cons name rest inductionHypothesis =>
    rw [nodeAt?] at found
    cases child : top.entries.lookup name with
    | none =>
      rw [child] at found
      cases found
    | some next =>
      rw [child] at found
      cases top with
      | directory entries => exact inductionHypothesis (ordered_of_lookup ordered child) found
      | file content modified => cases child
      | link target => cases child

theorem ordered_of_linkStat
    {tree : FileTree} {path : String} {node : Node} (ordered : tree.top.Ordered)
    (looked : tree.linkStat path = .ok node) : node.Ordered := by
  unfold linkStat at looked
  split at looked
  · rename_i place found
    cases looked
    exact ordered_of_nodeAt? ordered (nodeAt?_of_find found)
  · cases looked

end FileTree

namespace Discovery

/-! ## Names on the way to a file -/

theorem parts_pathText
    {here : List String} (nonempty : here ≠ []) (areNames : ∀ name ∈ here, EntryName name) :
    Path.parts (pathText here) = here.reverse := by
  refine Path.parts_intercalate (List.reverse_ne_nil_iff.mpr nonempty) fun name member => ?_
  exact (areNames name (List.mem_reverse.mp member)).slashFree

theorem mem_leaf
    {here : List String} {file : String} {excluded has : Bool}
    (found : file ∈ if excluded then [] else if has then [pathText here] else []) :
    file = pathText here := by
  cases excluded with
  | true => cases found
  | false =>
    cases has with
    | true => exact List.mem_singleton.mp found
    | false => cases found

mutual

/-- What is found at a node has the names of the node in front. -/
theorem parts_of_mem_filesAt
    (options : Options) (here : List String) (nonempty : here ≠ [])
    (areNames : ∀ name ∈ here, EntryName name) (node : Node) (wellNamed : node.WellNamed)
    (file : String) (found : file ∈ filesAt options here node) :
    here.reverse <+: Path.parts file := by
  cases node with
  | directory entries =>
    simp only [filesAt] at found
    split at found
    · cases found
    · obtain ⟨name, _, front⟩ :=
        parts_of_mem_filesAmong options here areNames entries wellNamed file found
      exact (List.prefix_append here.reverse [name]).trans front
  | file content modified =>
    simp only [filesAt] at found
    exact (congrArg Path.parts (mem_leaf found)).trans (parts_pathText nonempty areNames) ▸
      List.prefix_rfl
  | link target =>
    simp only [filesAt] at found
    exact (congrArg Path.parts (mem_leaf found)).trans (parts_pathText nonempty areNames) ▸
      List.prefix_rfl

/-- What is found among some entries has the names of the directory in front, and then the name of
an entry. -/
theorem parts_of_mem_filesAmong
    (options : Options) (here : List String) (areNames : ∀ name ∈ here, EntryName name)
    (entries : List (String × Node)) (wellNamed : EntriesWellNamed entries) (file : String)
    (found : file ∈ filesAmong options here entries) :
    ∃ name ∈ entries.map (·.1), here.reverse ++ [name] <+: Path.parts file := by
  cases entries with
  | nil =>
    rw [filesAmong] at found
    cases found
  | cons entry rest =>
    obtain ⟨name, node⟩ := entry
    obtain ⟨isName, nodeWellNamed, restWellNamed⟩ := wellNamed
    rw [filesAmong, List.mem_append] at found
    rcases found with first | later
    · have front := parts_of_mem_filesAt options (name :: here) (List.cons_ne_nil name here)
        (List.forall_mem_cons.mpr ⟨isName, areNames⟩) node nodeWellNamed file first
      rw [List.reverse_cons] at front
      exact ⟨name, List.mem_cons_self, front⟩
    · obtain ⟨other, member, front⟩ :=
        parts_of_mem_filesAmong options here areNames rest restWellNamed file later
      exact ⟨other, List.mem_cons_of_mem name member, front⟩

end

/-! ## The order of what is found -/

/-- A path comes before another one, both taken as lists of names. -/
def Before (first second : String) : Prop :=
  List.Lex (· < ·) (Path.parts first) (Path.parts second)

theorem before_of_parts
    {front : List String} {name other : String} (less : name < other) {first second : String}
    (firstFront : front ++ [name] <+: Path.parts first)
    (secondFront : front ++ [other] <+: Path.parts second) : Before first second := by
  obtain ⟨firstRest, firstParts⟩ := firstFront
  obtain ⟨secondRest, secondParts⟩ := secondFront
  rw [Before, ← firstParts, ← secondParts, List.append_assoc, List.append_assoc]
  exact List.Lex.append_left (· < ·) (List.Lex.rel less) front

theorem not_before_self (file : String) : ¬ Before file file :=
  List.lex_irrefl String.lt_irrefl _

theorem increasing_leaf (excluded has : Bool) (file : String) :
    (if excluded then [] else if has then [file] else []).Pairwise Before := by
  cases excluded with
  | true => exact List.Pairwise.nil
  | false =>
    cases has with
    | true => exact List.pairwise_singleton Before file
    | false => exact List.Pairwise.nil

mutual

/-- The files at and below a node are found in increasing order. -/
theorem increasing_filesAt
    (options : Options) (here : List String) (areNames : ∀ name ∈ here, EntryName name)
    (node : Node) (wellNamed : node.WellNamed)
    (ordered : node.Ordered) : (filesAt options here node).Pairwise Before := by
  cases node with
  | directory entries =>
    simp only [filesAt]
    split
    · exact List.Pairwise.nil
    · exact increasing_filesAmong options here areNames entries wellNamed ordered
  | file content modified =>
    rw [filesAt]
    · exact increasing_leaf _ _ _
    · intro entries isDirectory
      cases isDirectory
  | link target =>
    rw [filesAt]
    · exact increasing_leaf _ _ _
    · intro entries isDirectory
      cases isDirectory

theorem increasing_filesAmong
    (options : Options) (here : List String) (areNames : ∀ name ∈ here, EntryName name)
    (entries : List (String × Node)) (wellNamed : EntriesWellNamed entries)
    (ordered : EntriesOrdered entries) :
    (filesAmong options here entries).Pairwise Before := by
  cases entries with
  | nil =>
    rw [filesAmong]
    exact List.Pairwise.nil
  | cons entry rest =>
    obtain ⟨name, node⟩ := entry
    obtain ⟨isName, nodeWellNamed, restWellNamed⟩ := wellNamed
    obtain ⟨less, nodeOrdered, restOrdered⟩ := ordered
    have names := List.forall_mem_cons.mpr ⟨isName, areNames⟩
    rw [filesAmong, List.pairwise_append]
    refine ⟨increasing_filesAt options (name :: here) names node nodeWellNamed nodeOrdered,
      increasing_filesAmong options here areNames rest restWellNamed restOrdered, ?_⟩
    intro first inNode second inRest
    have firstFront := parts_of_mem_filesAt options (name :: here) (List.cons_ne_nil name here)
      names node nodeWellNamed first inNode
    obtain ⟨other, isOther, secondFront⟩ :=
      parts_of_mem_filesAmong options here areNames rest restWellNamed second inRest
    obtain ⟨entry, inEntries, rfl⟩ := List.mem_map.mp isOther
    rw [List.reverse_cons] at firstFront
    exact before_of_parts (less entry inEntries) firstFront secondFront

end

/-- Discovery finds files in the lexicographic order of their names. -/
theorem increasing_files
    {tree : FileTree} {root : String} {options : Options} {files : List String}
    (wellNamed : tree.top.WellNamed) (ordered : tree.top.Ordered)
    (found : Discovery.files tree root options = .ok files) : files.Pairwise Before := by
  unfold Discovery.files at found
  split at found
  · cases found
  · cases top : tree.linkStat root with
    | error fault =>
      rw [top] at found
      cases found
    | ok node =>
      rw [top] at found
      have nodeWellNamed := FileTree.wellNamed_of_linkStat wellNamed top
      have nodeOrdered := FileTree.ordered_of_linkStat ordered top
      cases node with
      | directory entries =>
        cases found
        exact increasing_filesAmong options [] (List.forall_mem_nil _) entries nodeWellNamed
          nodeOrdered
      | file content modified =>
        cases found
        exact increasing_leaf false _ "."
      | link target =>
        cases found
        exact increasing_leaf false _ "."

/-- Discovery finds each file once. -/
theorem nodup_files
    {tree : FileTree} {root : String} {options : Options} {files : List String}
    (wellNamed : tree.top.WellNamed) (ordered : tree.top.Ordered)
    (found : Discovery.files tree root options = .ok files) : files.Nodup := by
  refine (increasing_files wellNamed ordered found).imp fun before same => ?_
  rw [same] at before
  exact not_before_self _ before

end Discovery

end ImportAudit
