import ImportAudit.Proofs.Discovery.Names

/-!
# Writing a file

A file is written where its path leads: in the place of a file, or at a free name of a directory.
The path leads to the new file afterwards, and whatever stands anywhere else is as it was.
-/

namespace ImportAudit

/-- What a node is by itself: a directory is taken without its entries. -/
def Node.itself : Node → Node
  | .directory _ => .directory []
  | node => node

namespace FileTree

def standing? (tree : FileTree) (place : List String) : Option Node :=
  (nodeAt? tree.top place).map Node.itself

/-! ## Entries -/

@[simp]
theorem lookup_insertEntry_self (name : String) (node : Node) (entries : List (String × Node)) :
    (insertEntry name node entries).lookup name = some node := by
  induction entries with
  | nil => simp [insertEntry]
  | cons entry rest inductionHypothesis =>
    obtain ⟨other, kept⟩ := entry
    rw [insertEntry]
    by_cases same : name = other
    · simp [same]
    · rw [if_neg same]
      by_cases before : name < other
      · simp [before]
      · have differs : (name == other) = false := beq_eq_false_iff_ne.mpr same
        rw [if_neg before, List.lookup_cons, differs]
        exact inductionHypothesis

theorem lookup_insertEntry_of_ne
    {name other : String} (differs : other ≠ name) (node : Node)
    (entries : List (String × Node)) :
    (insertEntry name node entries).lookup other = entries.lookup other := by
  have unequal : (other == name) = false := beq_eq_false_iff_ne.mpr differs
  induction entries with
  | nil => simp [insertEntry, List.lookup_cons, unequal]
  | cons entry rest inductionHypothesis =>
    obtain ⟨first, kept⟩ := entry
    rw [insertEntry]
    by_cases same : name = first
    · subst same
      simp [List.lookup_cons, unequal]
    · rw [if_neg same]
      by_cases before : name < first
      · simp [before, List.lookup_cons, unequal]
      · rw [if_neg before, List.lookup_cons, List.lookup_cons, inductionHypothesis]

/-! ## Places -/

/-- A file may be put at a place below some entries: only directories are on the way, and at its
end there is a file or nothing. -/
def Open (entries : List (String × Node)) : List String → Prop
  | [] => False
  | [name] => ∀ node, entries.lookup name = some node →
      ∃ content modified, node = .file content modified
  | name :: rest => ∃ below, entries.lookup name = some (.directory below) ∧ Open below rest

/-- A file that exists can be written. -/
theorem open_of_file
    {entries : List (String × Node)} {place : List String} {content : ByteArray} {modified : Int}
    (found : nodeAt? (.directory entries) place = some (.file content modified)) :
    Open entries place := by
  induction place generalizing entries with
  | nil => cases found
  | cons name rest inductionHypothesis =>
    rw [nodeAt?_cons] at found
    obtain ⟨child, looked, below⟩ := Option.bind_eq_some_iff.mp found
    cases rest with
    | nil =>
      cases below
      intro node same
      rw [looked] at same
      cases same
      exact ⟨content, modified, rfl⟩
    | cons next others =>
      obtain ⟨childEntries, rfl⟩ := isDirectory_of_nodeAt?_cons below
      exact ⟨childEntries, looked, inductionHypothesis below⟩

/-- What stands at an open place is a file. -/
theorem file_of_open
    {entries : List (String × Node)} {place : List String} {node : Node}
    (ready : Open entries place) (found : nodeAt? (.directory entries) place = some node) :
    ∃ content modified, node = .file content modified := by
  induction place generalizing entries with
  | nil => cases ready
  | cons name rest inductionHypothesis =>
    rw [nodeAt?_cons] at found
    obtain ⟨child, looked, below⟩ := Option.bind_eq_some_iff.mp found
    cases rest with
    | nil =>
      cases below
      exact ready node looked
    | cons next others =>
      obtain ⟨childEntries, isChild, readyBelow⟩ := ready
      rw [looked] at isChild
      cases isChild
      exact inductionHypothesis readyBelow below

/-- A free name in a directory can be written. -/
theorem open_of_free
    {entries below : List (String × Node)} {parent : List String} {name : String}
    (directory : nodeAt? (.directory entries) parent = some (.directory below))
    (free : below.lookup name = none) : Open entries (parent ++ [name]) := by
  induction parent generalizing entries with
  | nil =>
    cases directory
    intro node found
    rw [free] at found
    cases found
  | cons first rest inductionHypothesis =>
    rw [nodeAt?_cons] at directory
    obtain ⟨child, looked, inside⟩ := Option.bind_eq_some_iff.mp directory
    obtain ⟨childEntries, rfl⟩ : ∃ childEntries, child = .directory childEntries := by
      cases rest with
      | nil =>
        cases inside
        exact ⟨below, rfl⟩
      | cons next others => exact isDirectory_of_nodeAt?_cons inside
    have openBelow := inductionHypothesis inside
    obtain ⟨next, others, shape⟩ := List.exists_cons_of_ne_nil
      (List.append_ne_nil_of_right_ne_nil rest (List.cons_ne_nil name []))
    rw [List.cons_append, shape]
    exact ⟨childEntries, looked, shape ▸ openBelow⟩

/-- What was put at a place stands there. -/
theorem nodeAt?_putEntries_self
    {entries : List (String × Node)} {place : List String} (named : place ≠ []) (node : Node) :
    nodeAt? (.directory (putEntries entries place node)) place = some node := by
  fun_induction putEntries entries place node with
  | case1 => exact absurd rfl named
  | case2 entries node name => simp
  | case3 entries name rest node notLast below inductionHypothesis =>
    have deeper : rest ≠ [] := by
      rintro rfl
      exact notLast rfl
    simpa using inductionHypothesis deeper

/-- Putting a file at an open place changes nothing anywhere else. -/
theorem itself_putEntries
    {entries : List (String × Node)} {place other : List String} (ready : Open entries place)
    (differs : other ≠ place) (content : ByteArray) (modified : Int) :
    (nodeAt? (.directory (putEntries entries place (.file content modified))) other).map
        Node.itself =
      (nodeAt? (.directory entries) other).map Node.itself := by
  induction place generalizing entries other with
  | nil => cases ready
  | cons name rest inductionHypothesis =>
    cases other with
    | nil => rfl
    | cons first others =>
      by_cases same : first = name
      · subst same
        cases rest with
        | nil =>
          -- Below the file there is nothing, and there was nothing before.
          obtain ⟨next, more, rfl⟩ := List.exists_cons_of_ne_nil
            (show others ≠ [] from fun empty => differs (by rw [empty]))
          rw [putEntries, nodeAt?_cons, nodeAt?_cons, lookup_insertEntry_self]
          cases looked : entries.lookup first with
          | none => rfl
          | some node =>
            obtain ⟨_, _, rfl⟩ := ready node looked
            rfl
        | cons next more =>
          obtain ⟨below, looked, readyBelow⟩ := ready
          rw [putEntries, nodeAt?_cons, nodeAt?_cons, lookup_insertEntry_self, looked]
          · exact inductionHypothesis readyBelow fun equal => differs (by rw [equal])
          · rintro ⟨⟩
      · have kept : (putEntries entries (name :: rest) (.file content modified)).lookup first =
            entries.lookup first := by
          cases rest with
          | nil => exact lookup_insertEntry_of_ne same _ _
          | cons next more => exact lookup_insertEntry_of_ne same _ _
        simp [kept]

/-! ## Following a path -/

def IsDirectoryAt (tree : FileTree) (place : List String) : Prop :=
  ∃ entries, nodeAt? tree.top place = some (.directory entries)

/-- The directory above a directory is one. -/
theorem IsDirectoryAt.parent
    {tree : FileTree} {here : List String} (directory : tree.IsDirectoryAt here.reverse) :
    tree.IsDirectoryAt (here.drop 1).reverse := by
  cases here with
  | nil => exact directory
  | cons last above =>
    obtain ⟨entries, found⟩ := directory
    rw [List.reverse_cons, nodeAt?_append] at found
    obtain ⟨node, isNode, below⟩ := Option.bind_eq_some_iff.mp found
    obtain ⟨nodeEntries, rfl⟩ := isDirectory_of_nodeAt?_cons below
    exact ⟨nodeEntries, isNode⟩

theorem IsDirectoryAt.start
    {tree : FileTree} {here : List String} (directory : tree.IsDirectoryAt here.reverse)
    (path : String) : tree.IsDirectoryAt (startOf path here).reverse := by
  unfold startOf
  split
  · exact ⟨tree.entries, rfl⟩
  · exact directory

/-- A path that leads to a free name leads to one of a directory. -/
theorem open_of_follow_free
    {tree : FileTree} {followLast : Bool} {links : Nat} {here parts place : List String}
    (directory : tree.IsDirectoryAt here.reverse)
    (found : follow tree followLast links here parts = .ok (.free place)) :
    Open tree.entries place := by
  fun_induction follow tree followLast links here parts with
  | case3 links here part rest skipped inductionHypothesis =>
    exact inductionHypothesis directory found
  | case4 links here rest notSkipped inductionHypothesis =>
    exact inductionHypothesis directory.parent found
  | case5 links here part rest notSkipped notUp spot absent last =>
    have isFree : spot = place := by simpa [last] using found
    have shape : spot = here.reverse ++ [part] := List.reverse_cons
    obtain ⟨entries, isDirectory⟩ := directory
    rw [shape, nodeAt?_append, isDirectory, Option.bind_some, nodeAt?_cons] at absent
    rw [← isFree, shape]
    refine open_of_free isDirectory ?_
    cases looked : entries.lookup part with
    | none => rfl
    | some child =>
      rw [looked] at absent
      cases absent
  | case8 links here part rest notSkipped notUp spot entries isDirectory notLast
      inductionHypothesis =>
    exact inductionHypothesis ⟨entries, isDirectory⟩ found
  | case13 here part rest notSkipped notUp spot target isLink passed links inductionHypothesis =>
    exact inductionHypothesis (directory.start target) found
  | _ => simp_all

/-- A path that led to an open place leads to the file that was put there. -/
theorem follow_put
    {tree after : FileTree} {place : List String} {content : ByteArray} {modified : Int}
    (ready : Open tree.entries place)
    (put : nodeAt? after.top place = some (.file content modified))
    (same : ∀ other, other ≠ place → after.standing? other = tree.standing? other)
    {links : Nat} {here parts : List String} {spot : Spot}
    (found : follow tree true links here parts = .ok spot)
    (leads : spot = .free place ∨ ∃ node, spot = .taken place node) :
    follow after true links here parts = .ok (.taken place (.file content modified)) := by
  -- A directory or a link on the way stands somewhere else, so it still stands there.
  have elsewhere : ∀ other node, nodeAt? tree.top other = some node →
      (∀ content modified, node ≠ .file content modified) →
        ∃ kept, nodeAt? after.top other = some kept ∧ kept.itself = node.itself := by
    intro other node isNode notFile
    have differs : other ≠ place := by
      rintro rfl
      obtain ⟨held, time, isFile⟩ := file_of_open ready isNode
      exact notFile held time isFile
    have unchanged := same other differs
    rw [standing?, standing?, isNode] at unchanged
    exact Option.map_eq_some_iff.mp unchanged
  have arrives : ∀ other node, Spot.taken other node = spot → other = place := by
    intro other node isSpot
    rw [← isSpot] at leads
    rcases leads with free | ⟨held, taken⟩
    · cases free
    · exact (Spot.taken.inj taken).1
  fun_induction follow tree true links here parts with
  | case1 links here node isNode =>
    rw [List.unattach_reverse, List.unattach_attach] at isNode
    simp only [isNode, Except.ok.injEq] at found
    rw [follow, arrives _ _ found, put]
  | case3 links here part rest skipped inductionHypothesis =>
    rw [follow, if_pos skipped]
    exact inductionHypothesis found
  | case4 links here rest notSkipped inductionHypothesis =>
    rw [follow, if_neg notSkipped, if_pos rfl]
    exact inductionHypothesis found
  | case5 links here part rest notSkipped notUp free absent last =>
    obtain rfl := List.isEmpty_iff.mp last
    cases found
    have isPlace : (part :: here).reverse = place := by
      rcases leads with atPlace | ⟨node, atPlace⟩
      · exact Spot.free.inj atPlace
      · cases atPlace
    rw [follow_end ⟨notSkipped, notUp⟩ (isPlace ▸ put) (by simp), isPlace]
  | case7 links here part rest notSkipped notUp free entries isDirectory last =>
    -- The path leads to a file or to nothing, so it does not end at a directory.
    have isPlace := arrives _ _ (Except.ok.inj found)
    rw [isPlace] at isDirectory
    obtain ⟨_, _, isFile⟩ := file_of_open ready isDirectory
    cases isFile
  | case8 links here part rest notSkipped notUp free entries isDirectory notLast
      inductionHypothesis =>
    obtain ⟨kept, isKept, alike⟩ := elsewhere _ _ isDirectory (by simp)
    obtain ⟨keptEntries, rfl⟩ : ∃ keptEntries, kept = .directory keptEntries := by
      cases kept with
      | directory keptEntries => exact ⟨keptEntries, rfl⟩
      | file _ _ => cases alike
      | link _ => cases alike
    rw [follow_into ⟨notSkipped, notUp⟩ isKept (mt List.isEmpty_iff.mpr notLast)]
    exact inductionHypothesis found
  | case9 links here part rest notSkipped notUp free held time isFile last =>
    obtain rfl := List.isEmpty_iff.mp last
    have isPlace : (part :: here).reverse = place := arrives _ _ (Except.ok.inj found)
    rw [follow_end ⟨notSkipped, notUp⟩ (isPlace ▸ put) (by simp), isPlace]
  | case13 here part rest notSkipped notUp free target isLink passed links inductionHypothesis =>
    obtain ⟨kept, isKept, alike⟩ := elsewhere _ _ isLink (by simp)
    obtain rfl : kept = .link target := by
      cases kept with
      | directory _ => cases alike
      | file _ _ => cases alike
      | link _ => exact alike
    rw [follow_along ⟨notSkipped, notUp⟩ isKept passed]
    exact inductionHypothesis found
  | _ => simp_all

/-- Where a file may be written is open. -/
theorem open_of_writable
    {tree : FileTree} {path : String} {place : List String}
    (writable : tree.writable path = .ok place) :
    Open tree.entries place ∧ ∃ spot, tree.locate true path = .ok spot ∧
      (spot = .free place ∨ ∃ node, spot = .taken place node) := by
  unfold FileTree.writable at writable
  cases located : tree.locate true path with
  | error reason =>
    rw [located] at writable
    cases writable
  | ok spot =>
    have followed : follow tree true linkLimit [] (Path.parts path) = .ok spot := by
      unfold locate at located
      split at located
      · cases located
      · exact located
    rw [located] at writable
    cases spot with
    | free free =>
      cases writable
      exact ⟨open_of_follow_free ⟨tree.entries, rfl⟩ followed, _, rfl, Or.inl rfl⟩
    | taken taken node =>
      cases node with
      | file content modified =>
        cases writable
        exact ⟨open_of_file (nodeAt?_of_follow followed), _, rfl, Or.inr ⟨_, rfl⟩⟩
      | directory entries => cases writable
      | link target => cases writable

/-- A file may be written under a free name of the working directory. -/
theorem writable_name
    {tree : FileTree} {name : String} (isName : Path.IsName name)
    (free : tree.entries.lookup name = none) : tree.writable name = .ok [name] := by
  have absent : nodeAt? tree.top [name] = none := by
    rw [nodeAt?_top_cons, free, Option.bind_none]
  rw [writable, locate, if_neg isName.nonempty, Path.parts_of_free isName.slashFree,
    follow_free (leadsDown_of_isName isName) absent]
  rfl

/-- Once a file is written, its path leads to it, and whatever stands at another place is as it
was. -/
theorem find_write
    {tree after : FileTree} {path : String} {content : ByteArray} {modified : Int}
    (written : tree.write path content modified = .ok after) :
    ∃ place, after.find true path = .ok (place, .file content modified) ∧
      ∀ other, other ≠ place → after.standing? other = tree.standing? other := by
  unfold FileTree.write at written
  cases writable : tree.writable path with
  | error fault =>
    rw [writable] at written
    cases written
  | ok place =>
    rw [writable] at written
    cases written
    obtain ⟨ready, spot, located, leads⟩ := open_of_writable writable
    have same : ∀ other, other ≠ place →
        (tree.put place (.file content modified)).standing? other = tree.standing? other :=
      fun other differs => itself_putEntries ready differs content modified
    have named : place ≠ [] := by
      rintro rfl
      cases ready
    have put : nodeAt? (tree.put place (.file content modified)).top place =
        some (.file content modified) :=
      nodeAt?_putEntries_self named _
    refine ⟨place, ?_, same⟩
    unfold locate at located
    split at located
    · cases located
    · rename_i inside
      have arrived := follow_put ready put same located leads
      rw [find, locate, if_neg inside, arrived]

end FileTree

end ImportAudit
