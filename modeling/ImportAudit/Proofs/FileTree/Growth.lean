import ImportAudit.Proofs.Discovery.Walk
import ImportAudit.Proofs.FileTree.Writing

/-!
# Trees that grow

A tree grows into another one when everything in it stays where it is and files keep their
contents, whatever is added around them. What a path led to, it still leads to, and discovery finds
what it found, in the same order, with further files in between.
-/

namespace ImportAudit

/-- What of a node stays when a tree grows: a directory may have more entries, and a file another
time. -/
def Node.substance (node : Node) : Node :=
  match node.itself with
  | .file content _ => .file content 0
  | other => other

theorem Node.substance_file
    {node : Node} {content : ByteArray} {modified : Int}
    (same : node.substance = (Node.file content modified).substance) :
    ∃ later, node = .file content later := by
  cases node with
  | file held later =>
    cases same
    exact ⟨later, rfl⟩
  | directory entries => cases same
  | link target => cases same

theorem Node.substance_directory
    {node : Node} {entries : List (String × Node)}
    (same : node.substance = (Node.directory entries).substance) :
    ∃ later, node = .directory later := by
  cases node with
  | directory later => exact ⟨later, rfl⟩
  | file content modified => cases same
  | link target => cases same

theorem Node.substance_link
    {node : Node} {target : String} (same : node.substance = (Node.link target).substance) :
    node = .link target := by
  cases node with
  | link other => exact same
  | file content modified => cases same
  | directory entries => cases same

/-- Everything at and below a node is also at and below another one. -/
def Node.Grows (node later : Node) : Prop :=
  ∀ place found, FileTree.nodeAt? node place = some found →
    ∃ kept, FileTree.nodeAt? later place = some kept ∧ kept.substance = found.substance

theorem Node.Grows.below
    {node later found kept : Node} {place : List String} (grows : node.Grows later)
    (was : FileTree.nodeAt? node place = some found)
    (is : FileTree.nodeAt? later place = some kept) : found.Grows kept := by
  intro rest inner isInner
  have whole : FileTree.nodeAt? node (place ++ rest) = some inner := by
    rw [FileTree.nodeAt?_append, was]
    exact isInner
  obtain ⟨innerKept, isKept, same⟩ := grows _ inner whole
  rw [FileTree.nodeAt?_append, is] at isKept
  exact ⟨innerKept, isKept, same⟩

/-- Every entry is kept under its name and grows. -/
theorem Node.Grows.lookup
    {entries laterEntries : List (String × Node)}
    (grows : (Node.directory entries).Grows (.directory laterEntries))
    {name : String} {node : Node} (found : entries.lookup name = some node) :
    ∃ kept, laterEntries.lookup name = some kept ∧ kept.substance = node.substance ∧
      node.Grows kept := by
  have was : FileTree.nodeAt? (.directory entries) [name] = some node := by
    rw [FileTree.nodeAt?_cons, found]
    rfl
  obtain ⟨kept, is, same⟩ := grows [name] node was
  have looked : laterEntries.lookup name = some kept := by
    rw [FileTree.nodeAt?_cons] at is
    obtain ⟨child, isChild, itself⟩ := Option.bind_eq_some_iff.mp is
    cases itself
    exact isChild
  exact ⟨kept, looked, same, grows.below was is⟩

namespace FileTree

/-- Everything in a tree stays where it is in a later one. -/
def GrowsInto (tree later : FileTree) : Prop :=
  tree.top.Grows later.top

variable {tree later : FileTree}

/-! ## Following paths -/

/-- A path that led to a node leads to the same place, and to a node that is the same in
substance. -/
theorem follow_grown
    (grows : tree.GrowsInto later) {followLast : Bool} {links : Nat}
    {here parts place : List String} {node : Node}
    (found : follow tree followLast links here parts = .ok (.taken place node)) :
    ∃ kept, follow later followLast links here parts = .ok (.taken place kept) ∧
      kept.substance = node.substance := by
  fun_induction follow tree followLast links here parts with
  | case1 links here node isNode =>
    rw [List.unattach_reverse, List.unattach_attach] at isNode
    simp only [isNode] at found
    cases found
    obtain ⟨kept, isKept, same⟩ := grows _ _ isNode
    refine ⟨kept, ?_, same⟩
    rw [follow, isKept]
  | case3 links here part rest skipped inductionHypothesis =>
    rw [follow, if_pos skipped]
    exact inductionHypothesis found
  | case4 links here rest notSkipped inductionHypothesis =>
    rw [follow, if_neg notSkipped, if_pos rfl]
    exact inductionHypothesis found
  | case7 links here part rest notSkipped notUp spot entries isDirectory last =>
    obtain rfl := List.isEmpty_iff.mp last
    obtain ⟨rfl, rfl⟩ := Spot.taken.inj (Except.ok.inj found)
    obtain ⟨kept, isKept, same⟩ := grows _ _ isDirectory
    obtain ⟨keptEntries, rfl⟩ := Node.substance_directory same
    exact ⟨_, follow_end ⟨notSkipped, notUp⟩ isKept (by simp), same⟩
  | case8 links here part rest notSkipped notUp spot entries isDirectory notLast
      inductionHypothesis =>
    obtain ⟨kept, isKept, same⟩ := grows _ _ isDirectory
    obtain ⟨keptEntries, rfl⟩ := Node.substance_directory same
    rw [follow_into ⟨notSkipped, notUp⟩ isKept (mt List.isEmpty_iff.mpr notLast)]
    exact inductionHypothesis found
  | case9 links here part rest notSkipped notUp spot held time isFile last =>
    obtain rfl := List.isEmpty_iff.mp last
    obtain ⟨rfl, rfl⟩ := Spot.taken.inj (Except.ok.inj found)
    obtain ⟨kept, isKept, same⟩ := grows _ _ isFile
    obtain ⟨keptTime, rfl⟩ := Node.substance_file same
    exact ⟨_, follow_end ⟨notSkipped, notUp⟩ isKept (by simp), same⟩
  | case11 links here part rest notSkipped notUp spot target isLink stays =>
    obtain ⟨last, unfollowed⟩ := Bool.and_eq_true_iff.mp stays
    obtain rfl := List.isEmpty_iff.mp last
    obtain ⟨rfl, rfl⟩ := Spot.taken.inj (Except.ok.inj found)
    obtain ⟨kept, isKept, same⟩ := grows _ _ isLink
    obtain rfl := Node.substance_link same
    exact ⟨_, follow_end ⟨notSkipped, notUp⟩ isKept fun _ _ => by simpa using unfollowed, rfl⟩
  | case13 here part rest notSkipped notUp spot target isLink passed links inductionHypothesis =>
    obtain ⟨kept, isKept, same⟩ := grows _ _ isLink
    obtain rfl := Node.substance_link same
    rw [follow_along ⟨notSkipped, notUp⟩ isKept passed]
    exact inductionHypothesis found
  | _ => simp_all

/-- In a tree that has grown, a path leads to the same place, and there to the same substance. -/
theorem find_grown
    (grows : tree.GrowsInto later) {followLast : Bool} {path : String} {place : List String}
    {node : Node} (found : tree.find followLast path = .ok (place, node)) :
    ∃ kept, later.find followLast path = .ok (place, kept) ∧
      kept.substance = node.substance := by
  unfold find at found
  cases located : tree.locate followLast path with
  | error reason =>
    rw [located] at found
    cases found
  | ok spot =>
    rw [located] at found
    cases spot with
    | free free => cases found
    | taken taken there =>
      cases found
      unfold locate at located
      split at located
      · cases located
      · rename_i inside
        obtain ⟨kept, followed, same⟩ := follow_grown grows located
        refine ⟨kept, ?_, same⟩
        rw [find, locate, if_neg inside, followed]

/-- A file keeps its content in a tree that has grown. -/
theorem read_grown
    (grows : tree.GrowsInto later) {path : String} {content : ByteArray}
    (read : tree.read path = .ok content) : later.read path = .ok content := by
  unfold FileTree.read openNode at read
  cases found : tree.find true path with
  | error reason =>
    rw [found] at read
    cases read
  | ok spot =>
    obtain ⟨place, node⟩ := spot
    rw [found] at read
    cases node with
    | file held modified =>
      cases read
      obtain ⟨kept, foundLater, same⟩ := find_grown grows found
      obtain ⟨time, rfl⟩ := Node.substance_file same
      rw [FileTree.read, openNode, foundLater]
    | directory entries => cases read
    | link target => cases read

/-- What is at the root of a scan stays there and grows. -/
theorem linkStat_grown
    (grows : tree.GrowsInto later) {path : String} {node : Node}
    (looked : tree.linkStat path = .ok node) :
    ∃ kept, later.linkStat path = .ok kept ∧ kept.substance = node.substance ∧
      node.Grows kept := by
  unfold linkStat at looked
  split at looked
  · rename_i place found
    cases looked
    obtain ⟨kept, foundLater, same⟩ := find_grown grows found
    refine ⟨kept, ?_, same, ?_⟩
    · rw [linkStat, foundLater]
    · exact Node.Grows.below grows (nodeAt?_of_find found) (nodeAt?_of_find foundLater)
  · cases looked

end FileTree

/-! ## Walks -/

/-- An added entry may be left out. -/
theorem Node.Grows.leaveAdded
    {entries rest : List (String × Node)} {name : String} {node : Node}
    (grows : (Node.directory entries).Grows (.directory ((name, node) :: rest)))
    (added : entries.lookup name = none) : (Node.directory entries).Grows (.directory rest) := by
  intro place found isFound
  cases place with
  | nil =>
    cases isFound
    exact ⟨.directory rest, rfl, rfl⟩
  | cons first more =>
    obtain ⟨kept, isKept, same⟩ := grows _ _ isFound
    have differs : first ≠ name := by
      rintro rfl
      rw [FileTree.nodeAt?_cons, added] at isFound
      cases isFound
    rw [FileTree.nodeAt?_cons, lookup_cons_of_ne differs] at isKept
    exact ⟨kept, (FileTree.nodeAt?_cons _ _ _).trans isKept, same⟩

/-- An entry that was there may be left out. -/
theorem Node.Grows.leaveKept
    {rest : List (String × Node)} {name : String} {node later : Node}
    (grows : (Node.directory ((name, node) :: rest)).Grows later)
    (once : rest.lookup name = none) : (Node.directory rest).Grows later := by
  intro place found isFound
  cases place with
  | nil =>
    cases isFound
    obtain ⟨kept, isKept, same⟩ := grows [] _ rfl
    exact ⟨kept, isKept, same⟩
  | cons first more =>
    have differs : first ≠ name := by
      rintro rfl
      rw [FileTree.nodeAt?_cons, once] at isFound
      cases isFound
    refine grows _ _ ?_
    rw [FileTree.nodeAt?_cons, lookup_cons_of_ne differs, ← FileTree.nodeAt?_cons]
    exact isFound

namespace Discovery

mutual

/-- Nothing that was found is lost when the tree grows. -/
theorem filesAt_grown
    (options : Options) (here : List String) (node later : Node) (grows : node.Grows later)
    (same : later.substance = node.substance) (ordered : node.Ordered)
    (laterOrdered : later.Ordered) :
    (filesAt options here node).Sublist (filesAt options here later) := by
  cases later with
  | directory laterEntries =>
    obtain ⟨entries, rfl⟩ := Node.substance_directory same.symm
    rw [filesAt, filesAt]
    split
    · exact List.Sublist.refl []
    · exact filesAmong_grown options here entries laterEntries grows ordered laterOrdered
  | file content modified =>
    obtain ⟨time, rfl⟩ := Node.substance_file same.symm
    simp only [filesAt]
    exact List.Sublist.refl _
  | link target =>
    obtain rfl := Node.substance_link same.symm
    exact List.Sublist.refl _

/-- A walk through more entries finds the same files in the same order, and possibly more. -/
theorem filesAmong_grown
    (options : Options) (here : List String) (entries laterEntries : List (String × Node))
    (grows : (Node.directory entries).Grows (.directory laterEntries))
    (ordered : EntriesOrdered entries) (laterOrdered : EntriesOrdered laterEntries) :
    (filesAmong options here entries).Sublist (filesAmong options here laterEntries) := by
  cases entries with
  | nil =>
    rw [filesAmong]
    exact List.nil_sublist _
  | cons entry rest =>
    obtain ⟨name, node⟩ := entry
    obtain ⟨less, nodeOrdered, restOrdered⟩ := ordered
    have once : rest.lookup name = none := lookup_of_lt less
    obtain ⟨kept, isKept, same, keptGrows⟩ := grows.lookup List.lookup_cons_self
    cases laterEntries with
    | nil => cases isKept
    | cons laterEntry laterRest =>
      obtain ⟨laterName, later⟩ := laterEntry
      obtain ⟨laterLess, laterNodeOrdered, laterRestOrdered⟩ := laterOrdered
      by_cases first : name = laterName
      · subst first
        rw [List.lookup_cons_self] at isKept
        have isLater : kept = later := (Option.some.inj isKept).symm
        rw [isLater] at same keptGrows
        rw [filesAmong, filesAmong]
        refine List.Sublist.append ?_ ?_
        · exact filesAt_grown options (name :: here) node later keptGrows same nodeOrdered
            laterNodeOrdered
        · exact filesAmong_grown options here rest laterRest
            ((grows.leaveKept once).leaveAdded once) restOrdered laterRestOrdered
      · -- The entry stands further on, so everything here comes after the added one.
        rw [lookup_cons_of_ne first] at isKept
        obtain ⟨front, back, further, _⟩ := List.lookup_eq_some_iff.mp isKept
        have before : laterName < name :=
          laterLess (name, kept) (further ▸ List.mem_append_right front List.mem_cons_self)
        have added : ((name, node) :: rest).lookup laterName = none := by
          refine lookup_of_lt (List.forall_mem_cons.mpr ⟨before, fun entry member => ?_⟩)
          exact String.lt_trans before (less entry member)
        refine (filesAmong_grown options here ((name, node) :: rest) laterRest
          (grows.leaveAdded added) ⟨less, nodeOrdered, restOrdered⟩ laterRestOrdered).trans ?_
        rw [filesAmong]
        exact List.sublist_append_right _ _

end

/-- Discovery in a tree that has grown finds the same files in the same order, and possibly
more. -/
theorem files_grown
    {tree later : FileTree} (grows : tree.GrowsInto later) (ordered : tree.top.Ordered)
    (laterOrdered : later.top.Ordered) {root : String} {options : Options} {files : List String}
    (found : Discovery.files tree root options = .ok files) :
    ∃ laterFiles, Discovery.files later root options = .ok laterFiles ∧
      files.Sublist laterFiles := by
  unfold Discovery.files at found ⊢
  split at found
  · cases found
  · cases top : tree.linkStat root with
    | error fault =>
      rw [top] at found
      cases found
    | ok node =>
      rw [top] at found
      obtain ⟨kept, laterTop, same, below⟩ := FileTree.linkStat_grown grows top
      have nodeOrdered := FileTree.ordered_of_linkStat ordered top
      have keptOrdered := FileTree.ordered_of_linkStat laterOrdered laterTop
      rw [laterTop]
      cases node with
      | directory entries =>
        obtain ⟨laterEntries, rfl⟩ := Node.substance_directory same
        cases found
        exact ⟨_, rfl, filesAmong_grown options [] entries laterEntries below nodeOrdered
          keptOrdered⟩
      | file content modified =>
        obtain ⟨time, rfl⟩ := Node.substance_file same
        exact ⟨files, found, List.Sublist.refl files⟩
      | link target =>
        obtain rfl := Node.substance_link same
        exact ⟨files, found, List.Sublist.refl files⟩

end Discovery

namespace FileTree

/-! ## Adding one file -/

/-- A tree grows by a file that is put at a free place. -/
theorem growsInto_put
    {tree : FileTree} {place : List String} (ready : Open tree.entries place)
    (free : nodeAt? tree.top place = none) (content : ByteArray) (modified : Int) :
    tree.GrowsInto (tree.put place (.file content modified)) := by
  intro other found isFound
  have differs : other ≠ place := by
    rintro rfl
    rw [free] at isFound
    cases isFound
  have same := itself_putEntries ready differs content modified
  change nodeAt? (.directory tree.entries) other = some found at isFound
  rw [isFound] at same
  obtain ⟨kept, isKept, alike⟩ := Option.map_eq_some_iff.mp same
  exact ⟨kept, isKept, by rw [Node.substance, Node.substance, alike]⟩

end FileTree

end ImportAudit
