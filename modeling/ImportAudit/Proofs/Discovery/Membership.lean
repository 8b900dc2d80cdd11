import ImportAudit.Proofs.FileTree.Order
import ImportAudit.Proofs.Text.ByteOrder

/-!
# Which files discovery finds

Discovery finds a leaf of the tree exactly if its name has one of the extensions and no pattern
matches its path or that of a directory on the way to it. It finds each of them once, in the order
of their paths taken as lists of names, names being compared byte by byte.
-/

namespace ImportAudit

theorem FileTree.entryName_of_lookup
    {entries : List (String × Node)} {name : String} {node : Node}
    (wellNamed : EntriesWellNamed entries) (found : entries.lookup name = some node) :
    EntryName name := by
  induction entries with
  | nil => cases found
  | cons entry rest inductionHypothesis =>
    obtain ⟨other, here⟩ := entry
    obtain ⟨isName, _, restWellNamed⟩ := wellNamed
    by_cases same : name = other
    · exact same ▸ isName
    · rw [lookup_cons_of_ne same] at found
      exact inductionHypothesis restWellNamed found

/-- Only names that are allowed lead to a node. -/
theorem FileTree.entryName_of_nodeAt?
    {top node : Node} {names : List String} (wellNamed : top.WellNamed)
    (found : nodeAt? top names = some node) : ∀ name ∈ names, EntryName name := by
  induction names generalizing top with
  | nil => exact List.forall_mem_nil _
  | cons name rest inductionHypothesis =>
    obtain ⟨entries, rfl⟩ := isDirectory_of_nodeAt?_cons found
    rw [nodeAt?_cons] at found
    obtain ⟨child, isChild, further⟩ := Option.bind_eq_some_iff.mp found
    exact List.forall_mem_cons.mpr ⟨entryName_of_lookup wellNamed isChild,
      inductionHypothesis (wellNamed_of_lookup wellNamed isChild) further⟩

namespace Discovery

/-- A leaf below a node, by the names that lead to it from there, where `above` are the names of
the node itself: its last name has one of the extensions, and nothing on the way to it is
excluded, from the node on. The root of a walk has no names and is never excluded. -/
structure IsSource (options : Options) (above : List String) (node : Node)
    (names : List String) : Prop where
  leaf : ∃ leaf, FileTree.nodeAt? node names = some leaf ∧ leaf.isDirectory = false
  named : ∃ name, (above ++ names).getLast? = some name ∧
    hasExtension options.extensions name = true
  kept : ∀ front, front <+: names → above ++ front ≠ [] →
    isExcluded options.exclude (String.intercalate "/" (above ++ front)) = false

variable {options : Options} {above : List String}

/-! ## One node -/

/-- What is not a directory is found itself or not at all. -/
theorem isSource_leaf
    {node : Node} (leaf : node.isDirectory = false) (nonempty : above ≠ []) {names : List String} :
    IsSource options above node names ↔
      names = [] ∧ isExcluded options.exclude (String.intercalate "/" above) = false ∧
        ∃ name, above.getLast? = some name ∧ hasExtension options.extensions name = true := by
  constructor
  · rintro ⟨⟨found, isFound, _⟩, named, kept⟩
    cases names with
    | nil =>
      rw [List.append_nil] at named
      have itself := kept [] (List.prefix_refl []) (by rwa [List.append_nil])
      rw [List.append_nil] at itself
      exact ⟨rfl, itself, named⟩
    | cons name rest =>
      obtain ⟨entries, rfl⟩ := FileTree.isDirectory_of_nodeAt?_cons isFound
      cases leaf
  · rintro ⟨rfl, itself, named⟩
    refine ⟨⟨node, rfl, leaf⟩, by rwa [List.append_nil], fun front isFront _ => ?_⟩
    rw [List.prefix_nil.mp isFront, List.append_nil]
    exact itself

/-- What is sought in a directory is sought at one of its entries. -/
theorem isSource_directory
    {entries : List (String × Node)} {names : List String} :
    IsSource options above (.directory entries) names ↔
      (above ≠ [] → isExcluded options.exclude (String.intercalate "/" above) = false) ∧
        ∃ name child rest, names = name :: rest ∧ entries.lookup name = some child ∧
          IsSource options (above ++ [name]) child rest := by
  constructor
  · rintro ⟨⟨leaf, isLeaf, isNone⟩, named, kept⟩
    cases names with
    | nil =>
      cases isLeaf
      cases isNone
    | cons name rest =>
      rw [FileTree.nodeAt?_cons] at isLeaf
      obtain ⟨child, isChild, further⟩ := Option.bind_eq_some_iff.mp isLeaf
      refine ⟨fun nonempty => ?_, name, child, rest, rfl, isChild, ⟨leaf, further, isNone⟩, ?_, ?_⟩
      · have itself := kept [] List.nil_prefix (by rwa [List.append_nil])
        rwa [List.append_nil] at itself
      · rwa [List.append_assoc]
      · intro front isFront _
        rw [List.append_assoc]
        exact kept (name :: front) (List.cons_prefix_cons.mpr ⟨rfl, isFront⟩) (by simp)
  · rintro ⟨itself, name, child, rest, rfl, isChild, ⟨leaf, further, isNone⟩, named, kept⟩
    refine ⟨⟨leaf, ?_, isNone⟩, by rwa [List.append_assoc] at named, fun front isFront some => ?_⟩
    · rw [FileTree.nodeAt?_cons]
      exact Option.bind_eq_some_iff.mpr ⟨child, isChild, further⟩
    · cases front with
      | nil =>
        rw [List.append_nil] at some ⊢
        exact itself some
      | cons first others =>
        obtain ⟨rfl, isOthers⟩ := List.cons_prefix_cons.mp isFront
        have further := kept others isOthers (by simp)
        rwa [List.append_assoc] at further

/-! ## The walk -/

@[simp]
theorem mem_unless {excluded : Bool} {found : List String} {file : String} :
    (file ∈ if excluded then [] else found) ↔ excluded = false ∧ file ∈ found := by
  cases excluded <;> simp

theorem mem_leaf_iff
    (name : String) (here : List String) {node : Node} (leaf : node.isDirectory = false)
    (file : String) :
    (file ∈ if isExcluded options.exclude (pathText (name :: here)) then []
      else if hasExtension options.extensions name then [pathText (name :: here)]
      else []) ↔
      ∃ names, IsSource options (name :: here).reverse node names ∧
        file = String.intercalate "/" ((name :: here).reverse ++ names) := by
  have nonempty : (name :: here).reverse ≠ [] := by simp
  have last : (name :: here).reverse.getLast? = some name := by simp
  rw [mem_unless]
  simp only [isSource_leaf leaf nonempty, last, Option.some.injEq, exists_eq_left', and_assoc,
    exists_eq_left, List.append_nil, pathText]
  refine and_congr_right fun _ => ?_
  cases hasExtension options.extensions name <;> simp

mutual

/-- The walk finds at a node the leaves that are sought there and below. -/
theorem mem_filesAt
    (options : Options) (name : String) (here : List String) (node : Node) (ordered : node.Ordered)
    (file : String) :
    file ∈ filesAt options (name :: here) node ↔
      ∃ names, IsSource options (name :: here).reverse node names ∧
        file = String.intercalate "/" ((name :: here).reverse ++ names) := by
  cases node with
  | directory entries =>
    have nonempty : (name :: here).reverse ≠ [] := by simp
    rw [filesAt, mem_unless, mem_filesAmong options (name :: here) entries ordered file]
    simp only [isSource_directory, pathText]
    constructor
    · rintro ⟨kept, next, child, rest, isChild, source, isFile⟩
      exact ⟨next :: rest, ⟨fun _ => kept, next, child, rest, rfl, isChild, source⟩, isFile⟩
    · rintro ⟨names, ⟨kept, next, child, rest, rfl, isChild, source⟩, isFile⟩
      exact ⟨kept nonempty, next, child, rest, isChild, source, isFile⟩
  | file content modified =>
    simp only [filesAt, List.headD_cons]
    exact mem_leaf_iff name here rfl file
  | link target =>
    simp only [filesAt, List.headD_cons]
    exact mem_leaf_iff name here rfl file

/-- The files found among entries are the sources below them. -/
theorem mem_filesAmong
    (options : Options) (here : List String) (entries : List (String × Node))
    (ordered : EntriesOrdered entries) (file : String) :
    file ∈ filesAmong options here entries ↔
      ∃ name child rest, entries.lookup name = some child ∧
        IsSource options (here.reverse ++ [name]) child rest ∧
          file = String.intercalate "/" (here.reverse ++ name :: rest) := by
  cases entries with
  | nil => simp [filesAmong]
  | cons entry others =>
    obtain ⟨first, node⟩ := entry
    obtain ⟨less, nodeOrdered, othersOrdered⟩ := ordered
    have absent : others.lookup first = none := lookup_of_lt less
    rw [filesAmong, List.mem_append, mem_filesAt options first here node nodeOrdered file,
      mem_filesAmong options here others othersOrdered file, List.reverse_cons]
    constructor
    · rintro (⟨rest, source, isFile⟩ | ⟨name, child, rest, isChild, source, isFile⟩)
      · rw [List.append_assoc] at isFile
        exact ⟨first, node, rest, List.lookup_cons_self, source, isFile⟩
      · have differs : name ≠ first := by
          rintro rfl
          rw [absent] at isChild
          cases isChild
        rw [← lookup_cons_of_ne differs node] at isChild
        exact ⟨name, child, rest, isChild, source, isFile⟩
    · rintro ⟨name, child, rest, isChild, source, isFile⟩
      by_cases same : name = first
      · subst same
        rw [List.lookup_cons_self, Option.some.injEq] at isChild
        subst isChild
        exact Or.inl ⟨rest, source, by rw [List.append_assoc]; exact isFile⟩
      · rw [lookup_cons_of_ne same] at isChild
        exact Or.inr ⟨name, child, rest, isChild, source, isFile⟩

end

/-! ## Discovery -/

theorem mem_filesBelow
    {entries : List (String × Node)} (ordered : EntriesOrdered entries) (file : String) :
    file ∈ filesAmong options [] entries ↔
      ∃ names, IsSource options [] (.directory entries) names ∧
        file = String.intercalate "/" names := by
  rw [mem_filesAmong options [] entries ordered]
  simp only [isSource_directory, List.reverse_nil, List.nil_append]
  constructor
  · rintro ⟨name, child, rest, isChild, source, isFile⟩
    exact ⟨name :: rest, ⟨fun some => absurd rfl some, name, child, rest, rfl, isChild, source⟩,
      isFile⟩
  · rintro ⟨names, ⟨_, name, child, rest, rfl, isChild, source⟩, isFile⟩
    exact ⟨name, child, rest, isChild, source, isFile⟩

theorem hasExtension_iff {extensions : List String} {name : String} :
    hasExtension extensions name = true ↔
      ∃ extension ∈ extensions, extension.toList <:+ name.toList := by
  simp only [hasExtension, List.any_eq_true, Text.endsWith, List.isSuffixOf_iff_suffix]

theorem isExcluded_eq_false_iff {patterns : List String} {path : String} :
    isExcluded patterns path = false ↔
      ∀ pattern ∈ patterns, Glob.matchesPath pattern path = false := by
  simp only [isExcluded, List.any_eq_false, Bool.not_eq_true]

/-- A walk never fails on a directory if all patterns are well formed. -/
theorem files_of_directory
    {tree : FileTree} {root : String} {entries : List (String × Node)}
    (patterns : ∀ pattern ∈ options.exclude, Glob.isWellFormed pattern = true)
    (directory : tree.linkStat root = .ok (.directory entries)) :
    files tree root options = .ok (filesAmong options [] entries) := by
  have noneBad : badPattern? options.exclude = none := by
    rw [badPattern?, List.find?_eq_none]
    intro pattern member
    simp [patterns pattern member]
  rw [files, noneBad, directory]

/-- The first malformed pattern is refused whatever the tree. -/
theorem files_of_malformed
    {pattern : String} (member : pattern ∈ options.exclude)
    (malformed : Glob.isWellFormed pattern = false) :
    ∃ bad ∈ options.exclude, Glob.isWellFormed bad = false ∧
      ∀ tree root, files tree root options = .error (.invalidPattern bad) := by
  cases found : badPattern? options.exclude with
  | none =>
    rw [badPattern?, List.find?_eq_none] at found
    simpa [malformed] using found pattern member
  | some bad =>
    refine ⟨bad, List.mem_of_find?_eq_some found, ?_, fun tree root => ?_⟩
    · simpa using List.find?_some found
    · rw [files, found]

theorem parts_pathOf_leaf
    {entries : List (String × Node)} (wellNamed : (Node.directory entries).WellNamed)
    {names : List String} {leaf : Node}
    (isLeaf : FileTree.nodeAt? (.directory entries) names = some leaf)
    (notDirectory : leaf.isDirectory = false) :
    Path.parts (String.intercalate "/" names) = names := by
  refine Path.parts_intercalate ?_ fun name member => ?_
  · rintro rfl
    cases isLeaf
    cases notDirectory
  · exact (FileTree.entryName_of_nodeAt? wellNamed isLeaf name member).slashFree

theorem before_iff_bytes {first second : String} :
    Before first second ↔ List.Lex (fun name other => Text.bytesOf name < Text.bytesOf other)
      (Path.parts first) (Path.parts second) := by
  have sameOrder : (fun name other : String => Text.bytesOf name < Text.bytesOf other) =
      (· < ·) := by
    funext name other
    exact propext Text.bytesOf_lt_iff
  rw [Before, sameOrder]

/-- Discovery fails at a malformed pattern, whatever the tree. If all patterns are well formed, it
finds, of the leaves below a directory, those whose name ends with one of the extensions and whose
path is matched by no pattern, nor is that of a directory on the way; it finds nothing else. Each
path is found once, and paths come in the order of their names, compared byte by byte. -/
theorem files_exactly (options : Options) :
    (∀ pattern ∈ options.exclude, Glob.isWellFormed pattern = false →
      ∃ bad ∈ options.exclude, Glob.isWellFormed bad = false ∧
        ∀ tree root, files tree root options = .error (.invalidPattern bad)) ∧
    ((∀ pattern ∈ options.exclude, Glob.isWellFormed pattern = true) →
      ∀ (tree : FileTree) (root : String) (entries : List (String × Node)),
        tree.top.WellNamed → tree.top.Ordered → tree.linkStat root = .ok (.directory entries) →
        ∃ found, files tree root options = .ok found ∧
          (∀ names leaf, FileTree.nodeAt? (.directory entries) names = some leaf →
            leaf.isDirectory = false →
            (String.intercalate "/" names ∈ found ↔
              (∃ name, names.getLast? = some name ∧
                ∃ extension ∈ options.extensions, extension.toList <:+ name.toList) ∧
              ∀ front, front <+: names → front ≠ [] → ∀ pattern ∈ options.exclude,
                Glob.matchesPath pattern (String.intercalate "/" front) = false)) ∧
          (∀ file ∈ found, ∃ leaf,
            FileTree.nodeAt? (.directory entries) (Path.parts file) = some leaf ∧
              leaf.isDirectory = false ∧ String.intercalate "/" (Path.parts file) = file) ∧
          found.Nodup ∧
          found.Pairwise fun first second =>
            List.Lex (fun name other => Text.bytesOf name < Text.bytesOf other)
              (Path.parts first) (Path.parts second)) := by
  refine ⟨fun pattern => files_of_malformed, ?_⟩
  intro patterns tree root entries wellNamed ordered directory
  have found := files_of_directory patterns directory
  have named : (Node.directory entries).WellNamed :=
    FileTree.wellNamed_of_linkStat wellNamed directory
  have entriesOrdered : EntriesOrdered entries := FileTree.ordered_of_linkStat ordered directory
  refine ⟨_, found, ?_, ?_, nodup_files wellNamed ordered found, ?_⟩
  · intro names leaf isLeaf notDirectory
    rw [mem_filesBelow entriesOrdered]
    constructor
    · rintro ⟨others, source, same⟩
      obtain ⟨other, isOther, otherLeaf⟩ := source.leaf
      have sameNames : names = others := by
        rw [← parts_pathOf_leaf named isLeaf notDirectory, same,
          parts_pathOf_leaf named isOther otherLeaf]
      subst sameNames
      obtain ⟨name, isLast, has⟩ := source.named
      refine ⟨⟨name, isLast, hasExtension_iff.mp has⟩, fun front isFront nonempty => ?_⟩
      exact isExcluded_eq_false_iff.mp (source.kept front isFront nonempty)
    · rintro ⟨⟨name, isLast, has⟩, kept⟩
      refine ⟨names, ⟨⟨leaf, isLeaf, notDirectory⟩, ⟨name, isLast, hasExtension_iff.mpr has⟩, ?_⟩,
        rfl⟩
      exact fun front isFront nonempty =>
        isExcluded_eq_false_iff.mpr (kept front isFront nonempty)
  · intro file member
    obtain ⟨names, source, rfl⟩ := (mem_filesBelow entriesOrdered file).mp member
    obtain ⟨leaf, isLeaf, notDirectory⟩ := source.leaf
    rw [parts_pathOf_leaf named isLeaf notDirectory]
    exact ⟨leaf, isLeaf, notDirectory, rfl⟩
  · exact (increasing_files wellNamed ordered found).imp before_iff_bytes.mp

/-- A file of a directory, a link whose name comes before the path of that file as a text but
behind the name of its directory, and a file of a directory that is to be excluded. -/
def mixedTree : FileTree :=
  ((FileTree.empty.put ["src", "old", "z.ts"] (.file .empty 0)).put ["src", "a-b.ts"]
    (.link "gone")).put ["src", "a", "x.d.ts"] (.file .empty 0)

def mixedEntries : List (String × Node) :=
  [("a", .directory [("x.d.ts", .file .empty 0)]), ("a-b.ts", .link "gone"),
    ("old", .directory [("z.ts", .file .empty 0)])]

theorem wellNamed_mixedTree : mixedTree.top.WellNamed := by
  decide

theorem ordered_mixedTree : mixedTree.top.Ordered := by
  have empty : FileTree.empty.top.Ordered := trivial
  refine FileTree.ordered_put (FileTree.ordered_put (FileTree.ordered_put empty _ ?_) _ ?_) _ ?_
  all_goals trivial

/-- The file and the link are found, and the excluded directory is not entered. -/
theorem files_exactly_mixedTree :
    ∃ found, files mixedTree "src" ⟨[".ts"], ["o{ld,f}"]⟩ = .ok found ∧
      "a/x.d.ts" ∈ found ∧ "a-b.ts" ∈ found ∧ "old/z.ts" ∉ found ∧ found.Nodup := by
  have directory : mixedTree.linkStat (Path.below ["src"]) = .ok (.directory mixedEntries) :=
    FileTree.linkStat_of_nodeAt? (by decide) (by decide) rfl
  have patterns : ∀ pattern ∈ ["o{ld,f}"], Glob.isWellFormed pattern = true := by decide
  obtain ⟨found, isFound, exactly, _, once, _⟩ :=
    (files_exactly ⟨[".ts"], ["o{ld,f}"]⟩).2 patterns mixedTree "src" mixedEntries
      wellNamed_mixedTree ordered_mixedTree directory
  have unmatched : ∀ names ∈ [["a", "x.d.ts"], ["a-b.ts"]], ∀ front ∈ names.inits, front ≠ [] →
      ∀ pattern ∈ ["o{ld,f}"],
        Glob.matchesPath pattern (String.intercalate "/" front) = false := by
    decide
  refine ⟨found, isFound, ?_, ?_, ?_, once⟩
  · refine (exactly ["a", "x.d.ts"] (.file .empty 0) rfl rfl).mpr ⟨?_, fun front isFront => ?_⟩
    · exact ⟨"x.d.ts", rfl, ".ts", List.mem_singleton_self _, by decide⟩
    · exact unmatched _ (by decide) front ((List.mem_inits _ _).mpr isFront)
  · refine (exactly ["a-b.ts"] (.link "gone") rfl rfl).mpr ⟨?_, fun front isFront => ?_⟩
    · exact ⟨"a-b.ts", rfl, ".ts", List.mem_singleton_self _, by decide⟩
    · exact unmatched _ (by decide) front ((List.mem_inits _ _).mpr isFront)
  · intro member
    have kept := ((exactly ["old", "z.ts"] (.file .empty 0) rfl rfl).mp member).2
    have notMatched := kept ["old"] ⟨["z.ts"], rfl⟩ (by simp) "o{ld,f}" (List.mem_singleton_self _)
    exact absurd notMatched (by decide)

end Discovery

end ImportAudit
