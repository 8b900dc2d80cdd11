import ImportAudit.Proofs.Discovery.Walk
import ImportAudit.Proofs.FileTree.Writing

/-!
# Trees stay ordered

Entries are put under their names into ordered directories. So every tree that is made from the
empty one by putting nodes into it is ordered.
-/

namespace ImportAudit.FileTree

/-! ## Entries of one directory -/

theorem mem_insertEntry
    {name : String} {node : Node} {entries : List (String × Node)} {entry : String × Node}
    (member : entry ∈ insertEntry name node entries) : entry = (name, node) ∨ entry ∈ entries := by
  induction entries with
  | nil => exact Or.inl (List.mem_singleton.mp member)
  | cons first rest inductionHypothesis =>
    obtain ⟨other, kept⟩ := first
    rw [insertEntry] at member
    split at member
    · rcases List.mem_cons.mp member with isNew | inRest
      · exact Or.inl isNew
      · exact Or.inr (List.mem_cons_of_mem _ inRest)
    · split at member
      · exact List.mem_cons.mp member
      · rcases List.mem_cons.mp member with isFirst | later
        · exact Or.inr (isFirst ▸ List.mem_cons_self)
        · exact (inductionHypothesis later).imp_right (List.mem_cons_of_mem _)

/-- Entries stay ordered when a node is put among them. -/
theorem ordered_insertEntry
    {entries : List (String × Node)} (ordered : EntriesOrdered entries) (name : String)
    {node : Node} (nodeOrdered : node.Ordered) :
    EntriesOrdered (insertEntry name node entries) := by
  induction entries with
  | nil => exact ⟨List.forall_mem_nil _, nodeOrdered, trivial⟩
  | cons entry rest inductionHypothesis =>
    obtain ⟨other, kept⟩ := entry
    obtain ⟨less, keptOrdered, restOrdered⟩ := ordered
    rw [insertEntry]
    by_cases same : name = other
    · rw [if_pos same]
      exact ⟨same ▸ less, nodeOrdered, restOrdered⟩
    · rw [if_neg same]
      by_cases before : name < other
      · rw [if_pos before]
        refine ⟨?_, nodeOrdered, less, keptOrdered, restOrdered⟩
        exact List.forall_mem_cons.mpr
          ⟨before, fun entry member => String.lt_trans before (less entry member)⟩
      · rw [if_neg before]
        refine ⟨fun entry member => ?_, keptOrdered, inductionHypothesis restOrdered⟩
        rcases mem_insertEntry member with rfl | inRest
        · by_contra notBehind
          exact same (String.le_antisymm (String.not_lt.mp notBehind) (String.not_lt.mp before))
        · exact less entry inRest

/-! ## Places -/

theorem ordered_entries {node : Node} (ordered : node.Ordered) : EntriesOrdered node.entries := by
  cases node with
  | directory entries => exact ordered
  | file content modified => trivial
  | link target => trivial

/-- Entries stay ordered at every depth when a node is put below them. -/
theorem ordered_putEntries
    {entries : List (String × Node)} (ordered : EntriesOrdered entries) (place : List String)
    {node : Node} (nodeOrdered : node.Ordered) :
    EntriesOrdered (putEntries entries place node) := by
  fun_induction putEntries entries place node with
  | case1 entries node => exact ordered
  | case2 entries node name => exact ordered_insertEntry ordered _ nodeOrdered
  | case3 entries name rest node nonempty below inductionHypothesis =>
    refine ordered_insertEntry ordered name (inductionHypothesis ?_ nodeOrdered)
    cases child : entries.lookup name with
    | none =>
      simp only [below, child]
      trivial
    | some found =>
      simp only [below, child]
      exact ordered_entries (ordered_of_lookup ordered child)

/-- A tree stays ordered when an ordered node is put anywhere. -/
theorem ordered_put
    {tree : FileTree} (ordered : tree.top.Ordered) (place : List String) {node : Node}
    (nodeOrdered : node.Ordered) : (tree.put place node).top.Ordered :=
  ordered_putEntries ordered place nodeOrdered

end ImportAudit.FileTree
