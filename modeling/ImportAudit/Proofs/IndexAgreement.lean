import ImportAudit.Scan.Build
import ImportAudit.Usage
import Mathlib.Data.List.Basic

/-!
# Indexes that agree

The label of a file stands in every record that was read from it, but nothing is found by it: the
specifiers and the declarations of a source text are the same under every label, and indexes that
agree on them have the same unused names.
-/

namespace ImportAudit

/-- A declaration without the label of its file. -/
def Declaration.unlabelled (declaration : Declaration) : String × String × Nat :=
  (declaration.name, declaration.kind, declaration.line)

/-- The same was read, whatever the labels. -/
structure Extraction.Agrees (left right : Extraction) : Prop where
  imports : left.imports.names = right.imports.names
  declarations :
    left.declarations.map (·.unlabelled) = right.declarations.map (·.unlabelled)

theorem Declaration.inLines_unlabelled
    (file other : String) (markers : List Marker) (number : Nat) (lines : List (List Char)) :
    (inLines file markers number lines).map (·.unlabelled) =
      (inLines other markers number lines).map (·.unlabelled) := by
  induction lines generalizing number with
  | nil => rfl
  | cons line rest inductionHypothesis =>
    cases declared : inLine? markers line with
    | none => simpa [inLines, declared] using inductionHypothesis (number + 1)
    | some found => simpa [inLines, declared, unlabelled] using inductionHypothesis (number + 1)

/-- What is read from a source does not depend on the label, as long as the label does not decide
whether declarations are read. -/
theorem Extraction.ofSource_agrees
    {settings : Extraction.Settings} {file other : String}
    (sameKind : settings.scansDeclarations file = settings.scansDeclarations other)
    (source : String) :
    (ofSource settings file source).Agrees (ofSource settings other source) := by
  refine ⟨rfl, ?_⟩
  by_cases scans : settings.scansDeclarations other = true
  · simpa [ofSource, sameKind, scans, Declaration.scan] using
      Declaration.inLines_unlabelled file other settings.markers 1 _
  · simp [ofSource, sameKind, scans]

namespace Index

/-- Two indexes agree on files, components, and what was read from each file. -/
structure Agrees (left right : Index) : Prop where
  root : left.root = right.root
  files : left.files = right.files
  components : left.components = right.components
  imports : ∀ file,
    (left.imports.lookup file).map (·.names) = (right.imports.lookup file).map (·.names)
  declarations : ∀ file,
    (left.declarations.lookup file).map (·.map (·.unlabelled)) =
      (right.declarations.lookup file).map (·.map (·.unlabelled))

theorem surface_eq (index : Index) :
    index.surface =
      index.files.flatMap fun file => ((index.imports.lookup file).map (·.names)).getD [] := by
  unfold surface importsInOrder
  induction index.files with
  | nil => rfl
  | cons file files inductionHypothesis =>
    cases found : index.imports.lookup file with
    | none => simpa [found] using inductionHypothesis
    | some record => simpa [found] using inductionHypothesis

theorem declarationNames_eq (index : Index) :
    index.declarationsInOrder.map (·.name) =
      index.files.flatMap fun file =>
        (((index.declarations.lookup file).map (·.map (·.unlabelled))).getD []).map (·.1) := by
  unfold declarationsInOrder
  rw [List.map_flatMap]
  refine List.flatMap_congr fun file _ => ?_
  cases index.declarations.lookup file with
  | none => rfl
  | some declarations => simp [Declaration.unlabelled]

theorem Agrees.surface
    {left right : Index} (agrees : left.Agrees right) : left.surface = right.surface := by
  rw [surface_eq, surface_eq, agrees.files]
  exact List.flatMap_congr fun file _ => by rw [agrees.imports]

theorem Agrees.declarationNames
    {left right : Index} (agrees : left.Agrees right) :
    left.declarationsInOrder.map (·.name) = right.declarationsInOrder.map (·.name) := by
  rw [declarationNames_eq, declarationNames_eq, agrees.files]
  exact List.flatMap_congr fun file _ => by rw [agrees.declarations]

/-- Indexes that agree have the same unused names. -/
theorem Agrees.findings
    {left right : Index} (agrees : left.Agrees right) (mode : MatchMode) :
    Usage.findings mode left = Usage.findings mode right := by
  simp only [Usage.findings, agrees.surface, agrees.declarationNames, agrees.components]

end Index

namespace Scan

def SameResults (left right : List (String × Extraction × Bool)) : Prop :=
  List.Forall₂ (fun found other => found.1 = other.1 ∧ found.2.1.Agrees other.2.1) left right

/-- Results that agree are put together to indexes that agree. -/
theorem assemble_agrees
    {left right : List (String × Extraction × Bool)} (same : SameResults left right)
    (root componentExtension : String) (files : List String) :
    (assemble root componentExtension files left).Agrees
      (assemble root componentExtension files right) := by
  refine ⟨rfl, rfl, rfl, fun file => ?_, fun file => ?_⟩
  · simp only [assemble]
    induction same with
    | nil => rfl
    | @cons found other _ _ pair _ inductionHypothesis =>
      obtain ⟨sameFile, agrees⟩ := pair
      by_cases here : (file == found.1) = true
      · simp [List.lookup_cons, here, ← sameFile, agrees.imports]
      · simpa [List.lookup_cons, here, ← sameFile] using inductionHypothesis
  · simp only [assemble]
    induction same with
    | nil => rfl
    | @cons found other _ _ pair _ inductionHypothesis =>
      obtain ⟨sameFile, agrees⟩ := pair
      have sameEmpty :
          found.2.1.declarations = [] ↔ other.2.1.declarations = [] := by
        rw [← List.map_eq_nil_iff, agrees.declarations, List.map_eq_nil_iff]
      by_cases empty : other.2.1.declarations = []
      · rw [List.filterMap_cons_none (by simp [sameEmpty.mpr empty]),
          List.filterMap_cons_none (by simp [empty])]
        exact inductionHypothesis
      · have foundSome : found.2.1.declarations ≠ [] := fun none => empty (sameEmpty.mp none)
        rw [List.filterMap_cons_some (b := (found.1, found.2.1.declarations)) (by simp [foundSome]),
          List.filterMap_cons_some (b := (other.1, other.2.1.declarations)) (by simp [empty])]
        by_cases here : (file == found.1) = true
        · simp [List.lookup_cons, here, ← sameFile, agrees.declarations]
        · simpa only [List.lookup_cons, here, ← sameFile] using inductionHypothesis

end Scan

end ImportAudit
