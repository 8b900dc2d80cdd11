import ImportAudit.FileTree
import ImportAudit.Proofs.Path.Joining

/-!
# Following paths

A part of a path that is a name leads to a node, to a free name, into a directory, or along a
link. So a path of names leads through the directories on its way to what stands at the place of
these names.
-/

namespace ImportAudit

namespace FileTree

/-! ## Places -/

@[simp]
theorem nodeAt?_nil (node : Node) : nodeAt? node [] = some node :=
  rfl

@[simp]
theorem nodeAt?_cons (entries : List (String × Node)) (name : String) (rest : List String) :
    nodeAt? (.directory entries) (name :: rest) =
      (entries.lookup name).bind fun child => nodeAt? child rest := by
  rw [nodeAt?, Node.entries]
  cases entries.lookup name <;> rfl

@[simp]
theorem nodeAt?_file_cons
    (content : ByteArray) (modified : Int) (name : String) (rest : List String) :
    nodeAt? (.file content modified) (name :: rest) = none :=
  rfl

@[simp]
theorem nodeAt?_link_cons (target name : String) (rest : List String) :
    nodeAt? (.link target) (name :: rest) = none :=
  rfl

@[simp]
theorem nodeAt?_top_cons (tree : FileTree) (name : String) (rest : List String) :
    nodeAt? tree.top (name :: rest) =
      (tree.entries.lookup name).bind fun child => nodeAt? child rest :=
  nodeAt?_cons tree.entries name rest

theorem nodeAt?_append (node : Node) (front back : List String) :
    nodeAt? node (front ++ back) = (nodeAt? node front).bind fun found => nodeAt? found back := by
  induction front generalizing node with
  | nil => rfl
  | cons name rest inductionHypothesis =>
    rw [List.cons_append, nodeAt?, nodeAt?]
    cases node.entries.lookup name with
    | none => rfl
    | some child => exact inductionHypothesis child

/-- Only a directory has something below it. -/
theorem isDirectory_of_nodeAt?_cons
    {node found : Node} {name : String} {rest : List String}
    (here : nodeAt? node (name :: rest) = some found) : ∃ entries, node = .directory entries := by
  cases node with
  | directory entries => exact ⟨entries, rfl⟩
  | file content modified => cases here
  | link target => cases here

/-! ## Steps -/

/-- A part of a path that is looked up in the directory that was reached. -/
def LeadsDown (part : String) : Prop :=
  ¬ (part = "" || part = ".") = true ∧ part ≠ ".."

theorem leadsDown_of_isName {name : String} (isName : Path.IsName name) : LeadsDown name :=
  ⟨by simp [isName.nonempty, isName.notHere], isName.notUp⟩

section Steps

variable {tree : FileTree} {followLast : Bool} {links : Nat} {here rest : List String}
  {part : String} (down : LeadsDown part)
include down

theorem follow_end
    {node : Node} (found : nodeAt? tree.top (part :: here).reverse = some node)
    (stays : ∀ target, node = .link target → followLast = false) :
    follow tree followLast links here [part] = .ok (.taken (part :: here).reverse node) := by
  rw [follow, if_neg down.1, if_neg down.2]
  cases node with
  | directory entries => simp only [found, List.isEmpty_nil, if_true]
  | file content modified => simp only [found, List.isEmpty_nil, if_true]
  | link target =>
    simp only [found, stays target rfl, List.isEmpty_nil, Bool.not_false, Bool.and_self, if_true]

theorem follow_free (absent : nodeAt? tree.top (part :: here).reverse = none) :
    follow tree followLast links here [part] = .ok (.free (part :: here).reverse) := by
  rw [follow, if_neg down.1, if_neg down.2]
  simp only [absent, List.isEmpty_nil, if_true]

theorem follow_into
    {entries : List (String × Node)}
    (isDirectory : nodeAt? tree.top (part :: here).reverse = some (.directory entries))
    (more : rest ≠ []) :
    follow tree followLast links here (part :: rest) =
      follow tree followLast links (part :: here) rest := by
  rw [follow, if_neg down.1, if_neg down.2]
  simp only [isDirectory, List.isEmpty_iff, more, if_false]

theorem follow_along
    {target : String} (isLink : nodeAt? tree.top (part :: here).reverse = some (.link target))
    (passes : ¬ (rest.isEmpty && !followLast) = true) :
    follow tree followLast (links + 1) here (part :: rest) =
      follow tree followLast links (startOf target here) (Path.parts target ++ rest) := by
  rw [follow, if_neg down.1, if_neg down.2]
  simp only [isLink]
  rw [if_neg passes]

end Steps

/-! ## The place itself -/

section Here

variable (tree : FileTree)

theorem find_here (followLast : Bool) : tree.find followLast "." = .ok ([], tree.top) := by
  have parts : Path.parts "." = ["."] := by decide
  rw [find, locate, if_neg (by decide), parts, follow, if_pos (by decide), follow]
  rfl

@[simp]
theorem stat_here : tree.stat "." = .ok tree.top := by
  rw [stat, find_here]

@[simp]
theorem linkStat_here : tree.linkStat "." = .ok tree.top := by
  rw [linkStat, find_here]

@[simp]
theorem isDirectory_here : tree.isDirectory "." = true := by
  rw [isDirectory, stat_here]
  rfl

end Here

/-! ## Paths of names -/

section Names

variable {tree : FileTree} {names : List String} (areNames : ∀ name ∈ names, Path.IsName name)
include areNames

/-- Names lead down to the directory at their place, and from there on. -/
theorem follow_names
    {here rest : List String} {entries : List (String × Node)}
    (isDirectory : nodeAt? tree.top (here.reverse ++ names) = some (.directory entries))
    (more : rest ≠ []) (followLast : Bool) (links : Nat) :
    follow tree followLast links here (names ++ rest) =
      follow tree followLast links (names.reverse ++ here) rest := by
  induction names generalizing here with
  | nil => rfl
  | cons name others inductionHypothesis =>
    obtain ⟨isName, othersNames⟩ := List.forall_mem_cons.mp areNames
    have shape : here.reverse ++ name :: others = (name :: here).reverse ++ others := by simp
    rw [shape] at isDirectory
    obtain ⟨node, found, below⟩ := Option.bind_eq_some_iff.mp
      ((nodeAt?_append _ _ _).symm.trans isDirectory)
    obtain ⟨inside, rfl⟩ : ∃ inside, node = .directory inside := by
      cases others with
      | nil => exact ⟨entries, Option.some.inj below⟩
      | cons next later => exact isDirectory_of_nodeAt?_cons below
    rw [List.cons_append, follow_into (leadsDown_of_isName isName) found (by simp [more]),
      inductionHypothesis othersNames isDirectory]
    simp

/-- The path of names is taken apart into them. -/
theorem parts_below (nonempty : names ≠ []) : Path.parts (Path.below names) = names := by
  rw [Path.below_of_ne_nil nonempty areNames]
  exact Path.parts_intercalate nonempty fun name member => (areNames name member).slashFree

/-- The path of names leads to the node at their place. -/
theorem find_of_nodeAt?
    {node : Node} {followLast : Bool} (nonempty : names ≠ [])
    (found : nodeAt? tree.top names = some node)
    (stays : ∀ target, node = .link target → followLast = false) :
    tree.find followLast (Path.below names) = .ok (names, node) := by
  have parts := parts_below areNames nonempty
  obtain ⟨front, last, rfl⟩ := List.eq_nil_or_concat names |>.resolve_left nonempty
  rw [List.concat_eq_append] at *
  obtain ⟨frontNames, lastName⟩ := List.forall_mem_append.mp areNames
  have down := leadsDown_of_isName (List.forall_mem_singleton.mp lastName)
  obtain ⟨parent, isParent, below⟩ := Option.bind_eq_some_iff.mp
    ((nodeAt?_append _ _ _).symm.trans found)
  obtain ⟨entries, rfl⟩ := isDirectory_of_nodeAt?_cons below
  have arrives : nodeAt? tree.top (last :: (front.reverse ++ [])).reverse = some node := by
    simpa using found
  rw [find, locate, if_neg (Path.below_ne_empty _), parts,
    follow_names frontNames isParent (List.cons_ne_nil last []), follow_end down arrives stays]
  simp

theorem linkStat_of_nodeAt?
    {node : Node} (nonempty : names ≠ []) (found : nodeAt? tree.top names = some node) :
    tree.linkStat (Path.below names) = .ok node := by
  rw [linkStat, find_of_nodeAt? areNames nonempty found fun _ _ => rfl]

theorem stat_of_nodeAt?
    {node : Node} (nonempty : names ≠ []) (found : nodeAt? tree.top names = some node)
    (noLink : ∀ target, node ≠ .link target) : tree.stat (Path.below names) = .ok node := by
  rw [stat, find_of_nodeAt? areNames nonempty found fun target isLink =>
    absurd isLink (noLink target)]

theorem openNode_of_nodeAt?
    {node : Node} (nonempty : names ≠ []) (found : nodeAt? tree.top names = some node)
    (noLink : ∀ target, node ≠ .link target) : tree.openNode (Path.below names) = .ok node := by
  rw [openNode, find_of_nodeAt? areNames nonempty found fun target isLink =>
    absurd isLink (noLink target)]

theorem read_of_nodeAt?
    {content : ByteArray} {modified : Int} (nonempty : names ≠ [])
    (found : nodeAt? tree.top names = some (.file content modified)) :
    tree.read (Path.below names) = .ok content := by
  rw [read, openNode_of_nodeAt? areNames nonempty found (by simp)]

section Absent

variable {entries : List (String × Node)} {name : String} (isName : Path.IsName name)
  (parent : nodeAt? tree.top names = some (.directory entries))
  (absent : entries.lookup name = none)
include isName parent absent

/-- The path of a name that a directory does not have leads nowhere. -/
theorem find_of_absent (followLast : Bool) :
    tree.find followLast (Path.below (names ++ [name])) = .error .notExist := by
  have allNames := List.forall_mem_append.mpr ⟨areNames, List.forall_mem_singleton.mpr isName⟩
  have free : nodeAt? tree.top (name :: (names.reverse ++ [])).reverse = none := by
    simpa [nodeAt?_append, parent] using absent
  rw [find, locate, if_neg (Path.below_ne_empty _), parts_below allNames (by simp),
    follow_names areNames parent (List.cons_ne_nil name []),
    follow_free (leadsDown_of_isName isName) free]

theorem linkStat_of_absent :
    tree.linkStat (Path.below (names ++ [name])) =
      .error (.system "lstat" (Path.below (names ++ [name])) .notExist) := by
  rw [linkStat, find_of_absent areNames isName parent absent]

theorem isDirectory_of_absent : tree.isDirectory (Path.below (names ++ [name])) = false := by
  rw [isDirectory, stat, find_of_absent areNames isName parent absent]

end Absent

end Names

end FileTree

end ImportAudit
