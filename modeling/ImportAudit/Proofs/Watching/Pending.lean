import ImportAudit.Watcher
import Mathlib.Tactic.Tauto

/-!
# Gathered changes

The changes that a watcher gathers stand in the order of their paths, each path once. Putting a
change in takes the place of the earlier one for its path and leaves the others alone; so what a
watcher holds for a path is the change that it heeded last.
-/

namespace ImportAudit.Watcher

/-- The paths ascend, so that none stands twice. -/
def InOrder (changes : List Change) : Prop :=
  changes.Pairwise (·.1 < ·.1)

/-- A change takes the place of an earlier one of its path and of no other. -/
theorem mem_insertChange
    {held : List Change} (ordered : InOrder held) {path other : String}
    {changes others : Changes} :
    (other, others) ∈ insertChange path changes held ↔
      other = path ∧ others = changes ∨ other ≠ path ∧ (other, others) ∈ held := by
  induction held with
  | nil => simp [insertChange]
  | cons first rest inductionHypothesis =>
    obtain ⟨name, kept⟩ := first
    obtain ⟨before, restOrdered⟩ := List.pairwise_cons.mp ordered
    rw [insertChange]
    by_cases same : path = name
    · subst same
      rw [if_pos rfl, List.mem_cons, List.mem_cons, Prod.mk.injEq, Prod.mk.injEq]
      have laterDiffers : (other, others) ∈ rest → other ≠ path := by
        rintro later rfl
        exact String.lt_irrefl _ (before (other, others) later)
      tauto
    · rw [if_neg same]
      by_cases earlier : path < name
      · rw [if_pos earlier, List.mem_cons, Prod.mk.injEq]
        have heldDiffers : (other, others) ∈ (name, kept) :: rest → other ≠ path := by
          rintro member rfl
          rcases List.mem_cons.mp member with first | later
          · cases first
            exact same rfl
          · exact String.lt_asymm earlier (before (other, others) later)
        tauto
      · rw [if_neg earlier, List.mem_cons, List.mem_cons, Prod.mk.injEq,
          inductionHypothesis restOrdered]
        have firstDiffers : other = name ∧ others = kept → other ≠ path := by
          rintro ⟨rfl, _⟩ sameAgain
          exact same sameAgain.symm
        tauto

/-- Changes stay ordered by their paths. -/
theorem ordered_insertChange
    {held : List Change} (ordered : InOrder held) (path : String) (changes : Changes) :
    InOrder (insertChange path changes held) := by
  induction held with
  | nil => exact List.pairwise_singleton _ _
  | cons first rest inductionHypothesis =>
    obtain ⟨name, kept⟩ := first
    obtain ⟨before, restOrdered⟩ := List.pairwise_cons.mp ordered
    rw [insertChange]
    by_cases same : path = name
    · subst same
      rw [if_pos rfl]
      exact List.pairwise_cons.mpr ⟨before, restOrdered⟩
    · rw [if_neg same]
      by_cases earlier : path < name
      · rw [if_pos earlier]
        refine List.pairwise_cons.mpr ⟨fun other member => ?_, ordered⟩
        rcases List.mem_cons.mp member with rfl | later
        · exact earlier
        · exact String.lt_trans earlier (before other later)
      · rw [if_neg earlier]
        refine List.pairwise_cons.mpr ⟨?_, inductionHypothesis restOrdered⟩
        rintro ⟨other, others⟩ member
        rcases (mem_insertChange restOrdered).mp member with ⟨rfl, _⟩ | ⟨_, later⟩
        · refine Decidable.byContradiction fun notBefore => ?_
          exact same (String.le_antisymm (String.not_lt.mp notBefore) (String.not_lt.mp earlier))
        · exact before _ later

/-- The paths that are held need no order to be known. -/
theorem mem_paths_insertChange
    (path other : String) (changes : Changes) (held : List Change) :
    other ∈ (insertChange path changes held).map Prod.fst ↔
      other = path ∨ other ∈ held.map Prod.fst := by
  induction held with
  | nil => simp [insertChange]
  | cons first rest inductionHypothesis =>
    obtain ⟨name, kept⟩ := first
    rw [insertChange]
    by_cases same : path = name
    · subst same
      simp
    · rw [if_neg same]
      by_cases earlier : path < name
      · rw [if_pos earlier, List.map_cons, List.mem_cons]
      · rw [if_neg earlier, List.map_cons, List.mem_cons, inductionHypothesis, List.map_cons,
          List.mem_cons]
        exact or_left_comm

/-- A watcher that was not stopped hands on what it has gathered, if there is anything. -/
theorem flush_of_pending
    {watcher : Watcher} (running : watcher.stopped = false) (gathered : watcher.pending ≠ []) :
    watcher.flush.1 = some watcher.pending := by
  have nonempty : watcher.pending.isEmpty = false := List.isEmpty_eq_false_iff.mpr gathered
  simp only [flush, fire, take, handOn?, nonempty, running, Bool.or_self, Bool.false_eq_true,
    if_false]

end ImportAudit.Watcher
